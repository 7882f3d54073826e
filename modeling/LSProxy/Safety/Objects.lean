import LSProxy.Lib.Ownership
import LSProxy.Model.Process
import LSProxy.Session.Lifecycle

/-!
# Objects and what they hold

The descriptors and the events of the process are handles, and the objects of `Table` own them
(`Ownership`). Every operation on the tables is one change of objects, so each has the same three
things to be said about it, together `Table.Passes`: the tables stay valid, no name is used twice,
and whether a handle is lost. There is one lemma for each operation, `Table.Valid.` and the name of
the operation.

No operation loses an event (`Table.Valid.events`). Two lose descriptors: `connect_TCP` when it
fails, and the destructor of `response_buf`, which leaves the reader open. What the calls of one
callback lose is `Table.Valid.calls`, and what they do to the objects `Table.Called`.
-/

namespace LSProxy

open Ownership

/-! ### Handles -/

/-- A descriptor or an event. -/
inductive Handle
  | fd (f : Fd)
  | event (e : EventId)

/-- Some descriptors and some events. -/
def handles (fs : Finset Fd) (es : Finset EventId) : Set Handle
  | .fd f => f ∈ fs
  | .event e => e ∈ es

@[simp] theorem fd_mem_handles {fs : Finset Fd} {es : Finset EventId} {f : Fd} :
    .fd f ∈ handles fs es ↔ f ∈ fs := Iff.rfl

@[simp] theorem event_mem_handles {fs : Finset Fd} {es : Finset EventId} {e : EventId} :
    .event e ∈ handles fs es ↔ e ∈ es := Iff.rfl

/-- What an object holds. -/
def Object.holds (x : Object) : Set Handle := handles x.fds x.events

@[simp] theorem Object.events_closeTimer (k : ℕ) (fd : Fd) :
    (Object.closeTimer k fd).events = {.closeAfterTimeout k} := rfl

/-- It comes and goes with the server of a connection, or has to do with closing a socket. -/
def Object.transient : Object → Bool
  | .server _ _ | .closeTimer _ _ => true
  | _ => false

/-- The connection whose client the object is, or belongs to. -/
def Object.clientOf : Object → Option ℕ
  | .client b | .requestBuf b | .requestTmpBuf b | .responseBuf b => some b
  | _ => none

namespace Table

variable {acc acc' acc'' nh nh' nh'' : ℕ} {t t' t'' : Table}

/-- The names used so far, when `acc` sockets have been accepted and `nh` Hybridbufs named. Those
of the slow buffers of a connection are used once the buffers are there, or the client is gone. -/
def Used (t : Table) (acc nh : ℕ) : Set Handle
  | .fd (.startup _) => True
  | .fd (.client b) => b < acc
  | .fd (.server _ n) => n < t.nextServer
  | .fd (.requestBuf b) | .fd (.requestTmpBuf b) | .fd (.responseBuf b)
  | .fd (.responseReader b) =>
    b < acc ∧ (.client b ∈ t.objects → .requestBuf b ∈ t.objects)
  | .fd (.hist i) => i < nh
  | .event (.clientRead b) | .event (.clientWrite b) => b < acc
  | .event (.serverRead _ n) | .event (.serverWrite _ n) => n < t.nextServer
  | .event (.closeAfterTimeout k) | .event (.putEventsSlowMode k) => k < t.nextTimer
  | .event .acceptNew | .event .monitorDataRates => True

/-- The tables as a state of ownership. -/
def state (t : Table) (acc nh : ℕ) : State Object Handle where
  objects := {x | x ∈ t.objects}
  opened := handles t.fds t.events
  used := t.Used acc nh

/-- The handles that are open and have no owner. -/
def lost (t : Table) : Set Handle :=
  handles t.fds t.events \ heldBy Object.holds {x | x ∈ t.objects}

/-- The tables are in order. -/
structure Valid (acc nh : ℕ) (t : Table) : Prop where
  sound : Sound Object.holds (t.state acc nh)
  process : .process ∈ t.objects
  server : ∀ b n, .server b n ∈ t.objects ↔ t.serverOf b = some n
  events : ∀ e, .event e ∉ t.lost

/-- An operation turns the tables `t` into `t'`, and loses nothing just if `lossless`. -/
structure Passes (acc nh acc' nh' : ℕ) (t t' : Table) (lossless : Prop) : Prop where
  valid : t'.Valid acc' nh'
  evolves : Evolves Object.holds (t.state acc nh) (t'.state acc' nh')
  lossless_iff : t'.lost ⊆ t.lost ↔ lossless

theorem Passes.trans {p q : Prop} (h : Passes acc nh acc' nh' t t' p)
    (h' : Passes acc' nh' acc'' nh'' t' t'' q) : Passes acc nh acc'' nh'' t t'' (p ∧ q) where
  valid := h'.valid
  evolves := h.evolves.trans h'.evolves
  lossless_iff := by
    rw [← h.lossless_iff, ← h'.lossless_iff]
    exact h.evolves.lossless_trans h'.evolves

theorem Passes.congr {p q : Prop} (h : Passes acc nh acc' nh' t t' p) (hiff : p ↔ q) :
    Passes acc nh acc' nh' t t' q :=
  ⟨h.valid, h.evolves, h.lossless_iff.trans hiff⟩

theorem Valid.refl (hv : t.Valid acc nh) : Passes acc nh acc nh t t True :=
  ⟨hv, .refl _, iff_of_true Set.Subset.rfl trivial⟩

/-- Names stay used. -/
theorem Used.mono {h : Handle} (hused : h ∈ t.Used acc nh) (hacc : acc ≤ acc') (hnh : nh ≤ nh')
    (hserver : t.nextServer ≤ t'.nextServer) (htimer : t.nextTimer ≤ t'.nextTimer)
    (hslow : ∀ b, b < acc → (.client b ∈ t.objects → .requestBuf b ∈ t.objects) →
      .client b ∈ t'.objects → .requestBuf b ∈ t'.objects) : h ∈ t'.Used acc' nh' := by
  have buffers : ∀ b, (b < acc ∧ (.client b ∈ t.objects → .requestBuf b ∈ t.objects)) →
      b < acc' ∧ (.client b ∈ t'.objects → .requestBuf b ∈ t'.objects) := by
    rintro b ⟨hb, hclient⟩
    exact ⟨hb.trans_le hacc, hslow b hb hclient⟩
  -- each name is bounded by one of the counters, except those of the slow buffers
  rcases h with f | e
  · cases f with
    | startup => trivial
    | client => exact Nat.lt_of_lt_of_le hused hacc
    | server => exact Nat.lt_of_lt_of_le hused hserver
    | requestBuf | requestTmpBuf | responseBuf | responseReader => exact buffers _ hused
    | hist => exact Nat.lt_of_lt_of_le hused hnh
  · cases e with
    | acceptNew | monitorDataRates => trivial
    | clientRead | clientWrite => exact Nat.lt_of_lt_of_le hused hacc
    | serverRead | serverWrite => exact Nat.lt_of_lt_of_le hused hserver
    | closeAfterTimeout | putEventsSlowMode => exact Nat.lt_of_lt_of_le hused htimer

/-- An operation is a change of objects that loses no event. -/
theorem Valid.change (hv : t.Valid acc nh) {dead born : Set Object} {closed made : Set Handle}
    (h : Change Object.holds (t.state acc nh) (t'.state acc' nh') dead born closed made)
    (hprocess : .process ∈ t'.objects)
    (hserver : ∀ b n, .server b n ∈ t'.objects ↔ t'.serverOf b = some n)
    (hevents : ∀ e, .event e ∈ heldBy Object.holds dead \ closed ∪ made →
      .event e ∈ heldBy Object.holds born) :
    Passes acc nh acc' nh' t t'
      (heldBy Object.holds dead \ closed ∪ made ⊆ heldBy Object.holds born) := by
  refine ⟨⟨h.sound hv.sound, hprocess, hserver, fun e he => ?_⟩, h.evolves hv.sound,
    h.lossless_iff hv.sound⟩
  -- an event lost now was lost before, or the change has lost it
  have hlost : .event e ∈ (t'.state acc' nh').lost Object.holds := he
  rw [h.lost_eq hv.sound] at hlost
  rcases hlost with hold | ⟨hnew, hborn⟩
  · exact hv.events e hold
  · exact hborn (hevents e hnew)

/-! ### The start -/

theorem mem_start {n : ℕ} {x : Object} :
    x ∈ (start n).objects ↔ x = .process ∨ ∃ i, i < n ∧ x = .hist i := by
  simp [start, eq_comm]

/-- The objects at the start hold what is open. -/
theorem start_held (n : ℕ) :
    handles (start n).fds (start n).events = heldBy Object.holds {x | x ∈ (start n).objects} := by
  ext a
  constructor
  · rcases a with f | e
    · intro hf
      rcases Finset.mem_union.mp (fd_mem_handles.mp hf) with hf | hf
      · exact ⟨.process, mem_start.mpr (.inl rfl), hf⟩
      · obtain ⟨i, hi, rfl⟩ := Finset.mem_image.mp hf
        exact ⟨.hist i, mem_start.mpr (.inr ⟨i, Finset.mem_range.mp hi, rfl⟩),
          Finset.mem_singleton_self _⟩
    · intro he
      exact ⟨.process, mem_start.mpr (.inl rfl), he⟩
  -- the other way round: what an object of the start holds is open
  · rintro ⟨x, hx, ha⟩
    rcases mem_start.mp hx with rfl | ⟨i, hi, rfl⟩
    · rcases a with f | e
      · exact fd_mem_handles.mpr (Finset.mem_union_left _ ha)
      · exact ha
    · rcases a with f | e
      · obtain rfl := Finset.mem_singleton.mp ha
        have hmem : Fd.hist i ∈ (Finset.range n).image .hist :=
          Finset.mem_image_of_mem _ (Finset.mem_range.mpr hi)
        exact fd_mem_handles.mpr (Finset.mem_union_right _ hmem)
      · exact absurd ha (Finset.notMem_empty e)

theorem lost_start (n : ℕ) : (start n).lost = ∅ := by
  rw [lost, start_held, Set.sdiff_self]

/-- The process holds the descriptors of the start. -/
theorem startup_mem (f : Startup) : .startup f ∈ Object.process.fds := by
  cases f with
  | eventBase k =>
    have hk : k = 0 ∨ k = 1 ∨ k = 2 := by omega
    rcases hk with rfl | rfl | rfl <;> simp [Object.fds]
  | _ => simp [Object.fds]

theorem Valid.start (n : ℕ) : (Table.start n).Valid 0 n := by
  refine ⟨⟨fun {x y a} hx hy hax hay => ?_, (start_held n).symm.subset, ?_⟩,
    mem_start.mpr (.inl rfl), fun b m => ?_, fun e he => ?_⟩
  · -- the process and the Hybridbufs share nothing
    rcases mem_start.mp hx with rfl | ⟨i, hi, rfl⟩ <;>
      rcases mem_start.mp hy with rfl | ⟨j, hj, rfl⟩ <;> rcases a with f | e
    all_goals simp_all [Object.holds, Object.fds, Object.events]
  -- what is open at the start has been used
  · show handles (Table.start n).fds (Table.start n).events ⊆ _
    rw [start_held]
    rintro a ⟨x, hx, ha⟩
    rcases mem_start.mp hx with rfl | ⟨i, hi, rfl⟩ <;> rcases a with f | e
    · simp only [Object.holds, fd_mem_handles, Object.fds, Finset.mem_insert,
        Finset.mem_singleton] at ha
      rcases ha with rfl | rfl | rfl | rfl | rfl | rfl | rfl <;> trivial
    · simp only [Object.holds, event_mem_handles, Object.events, Finset.mem_insert,
        Finset.mem_singleton] at ha
      rcases ha with rfl | rfl <;> trivial
    · obtain rfl := Finset.mem_singleton.mp ha
      exact hi
    · exact absurd ha (Finset.notMem_empty e)
  · rw [mem_start]
    simp [Table.start]
  · rw [lost_start] at he
    exact he

/-! ### Creating and destroying -/

/-- Objects are created, all of whose names are new. -/
theorem Valid.create (hv : t.Valid acc nh) (xs : Finset Object)
    (hobjects : ∀ x, x ∈ t'.objects ↔ x ∈ t.objects ∨ x ∈ xs)
    (hfds : ∀ f, f ∈ t'.fds ↔ f ∈ t.fds ∨ ∃ x ∈ xs, f ∈ x.fds)
    (hevents : ∀ e, e ∈ t'.events ↔ e ∈ t.events ∨ ∃ x ∈ xs, e ∈ x.events)
    (hserver : ∀ b n, .server b n ∈ t'.objects ↔ t'.serverOf b = some n)
    (hused : t.Used acc nh ⊆ t'.Used acc' nh')
    (hfresh : ∀ x ∈ xs, ∀ h ∈ x.holds, h ∉ t.Used acc nh ∧ h ∈ t'.Used acc' nh')
    (hapart : ∀ x ∈ xs, ∀ y ∈ xs, ∀ h ∈ x.holds, h ∈ y.holds → x = y) :
    Passes acc nh acc' nh' t t' True := by
  have hchange : Change Object.holds (t.state acc nh) (t'.state acc' nh') ∅ {x | x ∈ xs} ∅
      (heldBy Object.holds {x | x ∈ xs}) := by
    refine ⟨?_, ?_, hused, ?_, Set.empty_subset _, Set.empty_subset _, ?_, ?_, ?_⟩
    · ext x
      simpa [state] using hobjects x
    · ext (f | e)
      · simpa [state, heldBy, Object.holds] using hfds f
      · simpa [state, heldBy, Object.holds] using hevents e
    · rintro h ⟨x, hx, hh⟩
      exact (hfresh x hx h hh).2
    · rintro h ⟨x, hx, hh⟩
      exact (hfresh x hx h hh).1
    · exact Set.subset_union_right
    · intro x y h hx hy hhx hhy
      exact hapart x hx y hy h hhx hhy
  -- what is opened is what the new objects hold
  have hall : heldBy Object.holds ∅ \ ∅ ∪ heldBy Object.holds {x | x ∈ xs}
      ⊆ heldBy Object.holds {x | x ∈ xs} := by
    rw [heldBy_empty, Set.empty_sdiff, Set.empty_union]
  refine (hv.change hchange ((hobjects _).mpr (.inl hv.process)) hserver ?_).congr
    (iff_of_true hall trivial)
  intro e he
  exact hall he

/-- One object is created, all of whose names are new. -/
theorem Valid.createOne (hv : t.Valid acc nh) {x : Object}
    (hobjects : t'.objects = insert x t.objects) (hfds : t'.fds = t.fds ∪ x.fds)
    (hevents : t'.events = t.events ∪ x.events)
    (hserver : ∀ b n, .server b n ∈ t'.objects ↔ t'.serverOf b = some n)
    (hclient : ∀ b, b < acc → .client b ≠ x) (hacc : acc ≤ acc') (hnh : nh ≤ nh')
    (hnext : t.nextServer ≤ t'.nextServer) (htimer : t.nextTimer ≤ t'.nextTimer)
    (hfresh : ∀ h ∈ x.holds, h ∉ t.Used acc nh ∧ h ∈ t'.Used acc' nh') :
    Passes acc nh acc' nh' t t' True := by
  refine hv.create {x} (fun y => ?_) (fun f => ?_) (fun e => ?_) hserver (fun h hh => ?_) ?_ ?_
  · rw [hobjects, Finset.mem_insert, Finset.mem_singleton, or_comm]
  · simp [hfds]
  · simp [hevents]
  · refine Used.mono hh hacc hnh hnext htimer fun b hb hold hclient' => ?_
    rw [hobjects] at hclient' ⊢
    exact Finset.mem_insert_of_mem (hold (Finset.mem_of_mem_insert_of_ne hclient' (hclient b hb)))
  · intro y hy h hh
    obtain rfl := Finset.mem_singleton.mp hy
    exact hfresh h hh
  · intro y hy z hz h _ _
    rw [Finset.mem_singleton.mp hy, Finset.mem_singleton.mp hz]

/-- The pointers to servers, when an object other than a server is created. -/
theorem Valid.server_insert (hv : t.Valid acc nh) {x : Object} (hx : ∀ b n, x ≠ .server b n)
    (b n : ℕ) : .server b n ∈ insert x t.objects ↔ t.serverOf b = some n := by
  rw [Finset.mem_insert, hv.server]
  exact or_iff_right (hx b n).symm

/-- An object other than a server is destroyed; what its destructor does not close is lost. -/
theorem Valid.destroy (hv : t.Valid acc nh) {x : Object} (hx : x ∈ t.objects)
    (hprocess : x ≠ .process) (hserver : ∀ b n, x ≠ .server b n) (hcloses : x.closes ⊆ x.fds)
    (hslow : ∀ b, .client b ∈ t.objects → x ≠ .requestBuf b) :
    Passes acc nh acc nh t (t.delete x) (x.fds ⊆ x.closes) := by
  have hchange : Change Object.holds (t.state acc nh) ((t.delete x).state acc nh) {x} ∅
      (handles x.closes x.events) ∅ := by
    refine ⟨?_, ?_, fun h hh => ?_, Set.empty_subset _, ?_, ?_, ?_, ?_, ?_⟩
    · ext y
      simp [state, delete, and_comm]
    · ext (f | e) <;> simp [state, delete]
    · refine Used.mono hh le_rfl le_rfl le_rfl le_rfl fun b hb hold hclient' => ?_
      have hkept := (Finset.mem_erase.mp hclient').2
      exact Finset.mem_erase.mpr ⟨(hslow b hkept).symm, hold hkept⟩
    · rintro y rfl
      exact hx
    · rw [heldBy_singleton]
      rintro (f | e) hh
      · exact hcloses hh
      · exact hh
    · exact fun h hh => hh.elim
    · rw [heldBy_empty]
      exact Set.empty_subset _
    · exact fun hx => hx.elim
  refine (hv.change hchange ?_ (fun b n => ?_) ?_).congr ?_
  · exact Finset.mem_erase.mpr ⟨hprocess.symm, hv.process⟩
  · show .server b n ∈ t.objects.erase x ↔ t.serverOf b = some n
    rw [Finset.mem_erase, hv.server, and_iff_right (hserver b n).symm]
  · rintro e (⟨he, hnot⟩ | he)
    · rw [heldBy_singleton] at he
      exact absurd he hnot
    · exact he.elim
  -- nobody takes over what the destructor leaves open
  · rw [heldBy_singleton, heldBy_empty, Set.union_empty]
    constructor
    · intro hsub f hf
      by_contra hopen
      exact hsub (show .fd f ∈ _ from ⟨hf, hopen⟩)
    · rintro hsub (f | e) ⟨hh, hnot⟩
      · exact absurd (hsub hh) hnot
      · exact absurd hh hnot

/-! ### Sockets -/

/-- What holds just a socket and its events: a client or a server. -/
structure HoldsSocket (x : Object) (fd : Fd) : Prop where
  fds : x.fds = {fd}
  closes : x.closes = ∅
  ne_process : x ≠ .process
  ne_requestBuf : ∀ b, x ≠ .requestBuf b

section HoldsSocket

variable {x : Object} {fd : Fd} {r : CloseResult} {serverOf : ℕ → Option ℕ}

theorem HoldsSocket.slow (hx : HoldsSocket x fd) {b : ℕ}
    (hold : .client b ∈ t.objects → .requestBuf b ∈ t.objects)
    (hclient : .client b ∈ t.objects.erase x) : .requestBuf b ∈ t.objects.erase x :=
  Finset.mem_erase.mpr ⟨(hx.ne_requestBuf b).symm, hold (Finset.mem_of_mem_erase hclient)⟩

/-- The owner of a socket is destroyed, and the socket closed. -/
theorem Valid.closeNow (hv : t.Valid acc nh) (hmem : x ∈ t.objects) (hx : HoldsSocket x fd)
    (hserver : ∀ b n, .server b n ≠ x ∧ t.serverOf b = some n ↔ serverOf b = some n) :
    Passes acc nh acc nh t
      { t.delete x with fds := (t.delete x).fds.erase fd, serverOf := serverOf } True := by
  have hchange : Change Object.holds (t.state acc nh)
      (state { t.delete x with fds := (t.delete x).fds.erase fd, serverOf := serverOf } acc nh)
      {x} ∅ x.holds ∅ := by
    refine ⟨?_, ?_, fun h hh => ?_, Set.empty_subset _, ?_, ?_, ?_, ?_, ?_⟩
    · ext y
      simp [state, delete, and_comm]
    · ext (f | e)
      · simp [state, delete, hx.closes, Object.holds, hx.fds, and_comm]
      · simp [state, delete, Object.holds]
    · exact Used.mono hh le_rfl le_rfl le_rfl le_rfl fun b _ hold => hx.slow hold
    · rintro y rfl
      exact hmem
    · rw [heldBy_singleton]
    · exact fun h hh => hh.elim
    · rw [heldBy_empty]
      exact Set.empty_subset _
    · exact fun hy => hy.elim
  -- all that the dead object held is closed
  have hall : heldBy Object.holds {x} \ x.holds ∪ ∅ = ∅ := by
    rw [heldBy_singleton, Set.sdiff_self, Set.union_empty]
  refine (hv.change hchange ?_ (fun b n => ?_) fun e he => ?_).congr ?_
  · exact Finset.mem_erase.mpr ⟨hx.ne_process.symm, hv.process⟩
  · show .server b n ∈ t.objects.erase x ↔ serverOf b = some n
    rw [Finset.mem_erase, hv.server, hserver]
  · rw [hall] at he
    exact he.elim
  · rw [hall]
    exact iff_of_true (Set.empty_subset _) trivial

/-- The owner of a socket is destroyed, and the socket goes to a timer. -/
theorem Valid.closeLater (hv : t.Valid acc nh) (hmem : x ∈ t.objects) (hx : HoldsSocket x fd)
    (hserver : ∀ b n, .server b n ≠ x ∧ t.serverOf b = some n ↔ serverOf b = some n) :
    Passes acc nh acc nh t
      { (t.delete x).newTimer (.closeTimer · fd) with serverOf := serverOf } True := by
  have hchange : Change Object.holds (t.state acc nh)
      (state { (t.delete x).newTimer (.closeTimer · fd) with serverOf := serverOf } acc nh)
      {x} {.closeTimer t.nextTimer fd} (handles ∅ x.events)
      (handles ∅ {.closeAfterTimeout t.nextTimer}) := by
    refine ⟨?_, ?_, fun h hh => ?_, ?_, ?_, ?_, ?_, ?_, ?_⟩
    · ext y
      simp [state, delete, newTimer, and_comm, or_comm]
    · ext (f | e)
      · simp [state, delete, newTimer, hx.closes]
      · simp [state, delete, newTimer, or_comm]
    · refine Used.mono hh le_rfl le_rfl le_rfl (Nat.le_succ _) fun b _ hold hclient => ?_
      have hkept := hx.slow hold (Finset.mem_of_mem_insert_of_ne hclient (by simp))
      exact Finset.mem_insert_of_mem hkept
    · rintro (f | e) hh
      · simp at hh
      · obtain rfl := Finset.mem_singleton.mp hh
        exact Nat.lt_succ_self _
    · rintro y rfl
      exact hmem
    · rw [heldBy_singleton]
      rintro (f | e) hh
      · simp at hh
      · exact hh
    · rintro (f | e) hh
      · simp at hh
      · obtain rfl := Finset.mem_singleton.mp hh
        exact Nat.lt_irrefl _
    · -- the timer has the socket from the dead object, and an event of its own
      rw [heldBy_singleton, heldBy_singleton]
      rintro (f | e) hh
      · refine .inl ⟨?_, by simp⟩
        rw [Object.holds, hx.fds]
        exact hh
      · exact .inr hh
    · rintro y z h rfl rfl - -
      rfl
  -- its events are freed, and its socket is what the timer holds
  have hall : heldBy Object.holds {x} \ handles ∅ x.events
        ∪ handles ∅ {.closeAfterTimeout t.nextTimer}
      ⊆ heldBy Object.holds {.closeTimer t.nextTimer fd} := by
    rw [heldBy_singleton, heldBy_singleton]
    rintro (f | e) (⟨hh, hnot⟩ | hh)
    · rw [Object.holds, hx.fds] at hh
      exact hh
    · simp at hh
    · exact absurd hh hnot
    · exact hh
  refine (hv.change hchange ?_ (fun b n => ?_) fun e he => hall he).congr (iff_of_true hall trivial)
  · exact Finset.mem_insert_of_mem (Finset.mem_erase.mpr ⟨hx.ne_process.symm, hv.process⟩)
  · rw [← hserver, ← hv.server]
    simp [delete, newTimer]

/-- `close_socket_gracefully`, in a destructor. -/
theorem Valid.closeSocket (hv : t.Valid acc nh) (hmem : x ∈ t.objects) (hx : HoldsSocket x fd)
    (hserver : ∀ b n, .server b n ≠ x ∧ t.serverOf b = some n ↔ serverOf b = some n) :
    Passes acc nh acc nh t
      { (t.delete x).closeSocketGracefully r fd with serverOf := serverOf } True := by
  unfold closeSocketGracefully
  split
  · exact hv.closeNow hmem hx hserver
  · exact hv.closeLater hmem hx hserver

end HoldsSocket

/-! ### The operations -/

/-- A live client has been accepted. -/
theorem Valid.client_lt (hv : t.Valid acc nh) {b : ℕ} (h : .client b ∈ t.objects) : b < acc :=
  hv.sound.used (a := .fd (.client b)) h (Finset.mem_singleton_self _)

/-- `connect_TCP` that fails leaves its socket open. -/
theorem Valid.connectTcp (hv : t.Valid acc nh) (b : ℕ) :
    Passes acc nh acc nh t (t.connectTcp b) False := by
  have hchange : Change Object.holds (t.state acc nh) ((t.connectTcp b).state acc nh) ∅ ∅ ∅
      (handles {.server b t.nextServer} ∅) := by
    refine ⟨?_, ?_, fun h hh => ?_, ?_, Set.empty_subset _, Set.empty_subset _, ?_, ?_, ?_⟩
    · ext x
      simp [state, Table.connectTcp]
    · ext (f | e) <;> simp [state, Table.connectTcp, or_comm]
    · exact Used.mono hh le_rfl le_rfl (Nat.le_succ _) le_rfl fun b _ hold => hold
    -- the number of the socket is used now, and was not before
    · rintro (f | e) hh
      · obtain rfl := Finset.mem_singleton.mp hh
        exact Nat.lt_succ_self t.nextServer
      · simp at hh
    · rintro (f | e) hh
      · obtain rfl := Finset.mem_singleton.mp hh
        exact Nat.lt_irrefl t.nextServer
      · simp at hh
    · rw [heldBy_empty]
      exact Set.empty_subset _
    · exact fun hx => hx.elim
  refine (hv.change hchange hv.process hv.server fun e he => ?_).congr ?_
  · rw [heldBy_empty, Set.empty_sdiff, Set.empty_union] at he
    simp at he
  · rw [heldBy_empty, Set.empty_sdiff, Set.empty_union, iff_false]
    -- the socket is open and nobody holds it
    intro hsub
    exact hsub (show .fd (.server b t.nextServer) ∈ handles _ _ from Finset.mem_singleton_self _)

theorem Valid.newServer (hv : t.Valid acc nh) {b : ℕ} (hnone : t.serverOf b = none) :
    Passes acc nh acc nh t (t.newServer b) True := by
  refine hv.createOne (x := .server b t.nextServer) rfl ?_ rfl (fun b' n => ?_) (by simp) le_rfl
    le_rfl (Nat.le_succ _) le_rfl fun h hh => ?_
  · simp [Table.newServer, new, Table.connectTcp, Object.fds]
  · show .server b' n ∈ insert (.server b t.nextServer) t.objects
      ↔ Function.update t.serverOf b (some t.nextServer) b' = some n
    rw [Finset.mem_insert, hv.server]
    by_cases hb : b' = b
    · subst hb
      simp [hnone, eq_comm]
    · simp [hb]
  · have hnew : ¬ t.nextServer < t.nextServer ∧ t.nextServer < t.nextServer + 1 :=
      ⟨Nat.lt_irrefl _, Nat.lt_succ_self _⟩
    rcases h with f | e
    · obtain rfl := Finset.mem_singleton.mp hh
      exact hnew
    · have hevent : e = .serverRead b t.nextServer ∨ e = .serverWrite b t.nextServer := by
        simpa [Object.holds, Object.events] using hh
      rcases hevent with rfl | rfl
      · exact hnew
      · exact hnew

theorem Valid.deleteServer (hv : t.Valid acc nh) {b : ℕ} (r : CloseResult)
    (hsome : (t.serverOf b).isSome = true) :
    Passes acc nh acc nh t (t.deleteServer b r) True := by
  obtain ⟨n, hn⟩ := Option.isSome_iff_exists.mp hsome
  rw [Table.deleteServer, hn]
  refine hv.closeSocket ((hv.server b n).mpr hn) ⟨rfl, rfl, by simp, by simp⟩ fun b' n' => ?_
  by_cases hb : b' = b
  · subst hb
    simp only [hn, Function.update_self, Option.some.injEq, reduceCtorEq, iff_false, not_and]
    rintro hne rfl
    exact hne rfl
  · simp [hb]

theorem mem_delete {x y : Object} : x ∈ (t.delete y).objects ↔ x ≠ y ∧ x ∈ t.objects :=
  Finset.mem_erase

theorem mem_deleteIf {x y : Object} : x ∈ (t.deleteIf y).objects ↔ x ≠ y ∧ x ∈ t.objects := by
  unfold deleteIf
  split
  · exact mem_delete
  · next hy =>
    refine ⟨fun hx => ⟨?_, hx⟩, And.right⟩
    rintro rfl
    exact hy hx

/-- Closing a socket touches no lasting object. -/
theorem mem_closeSocketGracefully {x : Object} (hx : x.transient = false) (r : CloseResult)
    (fd : Fd) : x ∈ (t.closeSocketGracefully r fd).objects ↔ x ∈ t.objects := by
  unfold closeSocketGracefully
  split
  · exact Iff.rfl
  · have hne : x ≠ .closeTimer t.nextTimer fd := by
      rintro rfl
      cases hx
    simp [newTimer, hne]

theorem closeSocketGracefully_serverOf (r : CloseResult) (fd : Fd) :
    (t.closeSocketGracefully r fd).serverOf = t.serverOf := by
  unfold closeSocketGracefully
  split <;> rfl

theorem Valid.destroyIf (hv : t.Valid acc nh) {x : Object} (hprocess : x ≠ .process)
    (hserver : ∀ b n, x ≠ .server b n) (hcloses : x.closes ⊆ x.fds)
    (hslow : ∀ b, .client b ∈ t.objects → x ≠ .requestBuf b) :
    Passes acc nh acc nh t (t.deleteIf x) (x ∈ t.objects → x.fds ⊆ x.closes) := by
  unfold deleteIf
  split
  · next hx =>
    refine (hv.destroy hx hprocess hserver hcloses hslow).congr ?_
    rw [forall_prop_of_true hx]
  · next hx => exact hv.refl.congr (iff_of_true trivial fun h => absurd h hx)

/-- The buffers of a client that is gone; the reader of `response_buf` is lost. -/
theorem Valid.deleteBuffers (hv : t.Valid acc nh) {b : ℕ} (hgone : .client b ∉ t.objects) :
    Passes acc nh acc nh t
      (((t.deleteIf (.requestBuf b)).deleteIf (.requestTmpBuf b)).deleteIf (.responseBuf b))
      (.responseBuf b ∉ t.objects) := by
  have hslow : ∀ b', .client b' ∈ t.objects → Object.requestBuf b ≠ .requestBuf b' := by
    rintro b' hb' heq
    obtain rfl := Object.requestBuf.inj heq
    exact hgone hb'
  have h₁ := hv.destroyIf (x := .requestBuf b) (by simp) (by simp) subset_rfl hslow
  have h₂ := h₁.valid.destroyIf (x := .requestTmpBuf b) (by simp) (by simp) subset_rfl (by simp)
  have h₃ := h₂.valid.destroyIf (x := .responseBuf b) (by simp) (by simp)
    (by simp [Object.closes, Object.fds]) (by simp)
  -- there is no `~FIFOfilebuf`
  have hreader : ¬ (Object.responseBuf b).fds ⊆ (Object.responseBuf b).closes := by
    intro hsub
    have hmem := hsub (show .responseReader b ∈ (Object.responseBuf b).fds by simp [Object.fds])
    simp [Object.closes] at hmem
  have hsame : .responseBuf b ∈ ((t.deleteIf (.requestBuf b)).deleteIf (.requestTmpBuf b)).objects
      ↔ .responseBuf b ∈ t.objects := by
    simp [mem_deleteIf]
  refine ((h₁.trans h₂).trans h₃).congr ?_
  rw [hsame]
  simp only [Object.fds, Object.closes, Finset.Subset.refl, implies_true, true_and]
  exact ⟨fun h hmem => hreader (h hmem), fun h hmem => absurd hmem h⟩

/-- What is left when a client has been destroyed, of all that lasts. -/
theorem mem_deleteClient {x : Object} (hx : x.transient = false) (b : ℕ) (r : CloseResult) :
    x ∈ (t.deleteClient b r).objects ↔ x ∈ t.objects ∧ x.clientOf ≠ some b := by
  rw [deleteClient, mem_deleteIf, mem_deleteIf, mem_deleteIf, mem_closeSocketGracefully hx,
    mem_delete]
  cases x <;> simp [Object.clientOf, and_comm]

theorem Valid.deleteClient (hv : t.Valid acc nh) {b : ℕ} (r : CloseResult)
    (hclient : .client b ∈ t.objects) :
    Passes acc nh acc nh t (t.deleteClient b r) (.responseBuf b ∉ t.objects) := by
  have hsocket : Passes acc nh acc nh t
      ((t.delete (.client b)).closeSocketGracefully r (.client b)) True := by
    have h : Passes acc nh acc nh t
        { (t.delete (.client b)).closeSocketGracefully r (.client b) with
          serverOf := t.serverOf } True :=
      hv.closeSocket hclient ⟨rfl, rfl, by simp, by simp⟩ fun b' n => by simp
    have hpointer := closeSocketGracefully_serverOf (t := t.delete (.client b)) r (.client b)
    rwa [← show _ = t.serverOf from hpointer] at h
  have hgone : .client b ∉
      ((t.delete (.client b)).closeSocketGracefully r (.client b)).objects := by
    rw [mem_closeSocketGracefully rfl, mem_delete]
    exact fun h => h.1 rfl
  refine (hsocket.trans (hsocket.valid.deleteBuffers hgone)).congr ?_
  rw [true_and, mem_closeSocketGracefully rfl, mem_delete]
  simp

theorem Valid.newSlowBuffers (hv : t.Valid acc nh) {b : ℕ} (hclient : .client b ∈ t.objects)
    (hnone : .requestBuf b ∉ t.objects) :
    Passes acc nh acc nh t (t.newSlowBuffers b) True := by
  have hfresh : ¬ (b < acc ∧ (.client b ∈ t.objects → .requestBuf b ∈ t.objects)) :=
    fun h => hnone (h.2 hclient)
  have hnew : b < acc ∧ (.client b ∈ (t.newSlowBuffers b).objects →
      .requestBuf b ∈ (t.newSlowBuffers b).objects) :=
    ⟨hv.client_lt hclient, fun _ => by simp [Table.newSlowBuffers, new]⟩
  refine hv.create {.requestBuf b, .requestTmpBuf b, .responseBuf b} (fun x => ?_)
    (fun f => ?_) (fun e => ?_) (fun b' n => ?_) (fun h hh => ?_) ?_ ?_
  · simp [Table.newSlowBuffers, new]
    tauto
  · simp [Table.newSlowBuffers, new, Object.fds]
    tauto
  · simp [Table.newSlowBuffers, new, Object.events]
  · show _ ↔ t.serverOf b' = some n
    rw [← hv.server]
    simp [Table.newSlowBuffers, new]
  · refine Used.mono hh le_rfl le_rfl le_rfl le_rfl fun b' _ hold hclient' => ?_
    simp [Table.newSlowBuffers, new] at hclient' ⊢
    exact .inr (hold hclient')
  -- the names of the slow buffers are used from now on
  · intro x hx h hh
    simp only [Finset.mem_insert, Finset.mem_singleton] at hx
    rcases hx with rfl | rfl | rfl <;> rcases h with f | e <;>
      simp [Object.holds, Object.fds, Object.events] at hh
    · exact hh ▸ ⟨hfresh, hnew⟩
    · exact hh ▸ ⟨hfresh, hnew⟩
    · rcases hh with rfl | rfl
      · exact ⟨hfresh, hnew⟩
      · exact ⟨hfresh, hnew⟩
  · intro x hx y hy h hhx hhy
    simp only [Finset.mem_insert, Finset.mem_singleton] at hx hy
    rcases hx with rfl | rfl | rfl <;> rcases hy with rfl | rfl | rfl <;> rcases h with f | e <;>
      simp_all [Object.holds, Object.fds, Object.events]

theorem Valid.deleteHists (hv : t.Valid acc nh) {ids : List ℕ} (hnodup : ids.Nodup)
    (hids : ∀ i ∈ ids, .hist i ∈ t.objects) :
    Passes acc nh acc nh t (ids.foldl (fun t i => t.delete (.hist i)) t) True := by
  induction ids generalizing t with
  | nil => exact hv.refl
  | cons i ids ih =>
    obtain ⟨hi, hnodup⟩ := List.nodup_cons.mp hnodup
    have h := hv.destroy (hids i List.mem_cons_self) (by simp) (by simp) subset_rfl (by simp)
    have hrest := ih h.valid hnodup fun j hj => mem_delete.mpr
      ⟨by rintro ⟨⟩; exact hi hj, hids j (List.mem_cons_of_mem _ hj)⟩
    exact (h.trans hrest).congr (iff_of_true ⟨subset_rfl, trivial⟩ trivial)

theorem mem_deleteHists {x : Object} (ids : List ℕ) :
    x ∈ (ids.foldl (fun t i => t.delete (.hist i)) t).objects
      ↔ x ∈ t.objects ∧ ∀ i ∈ ids, x ≠ .hist i := by
  induction ids generalizing t with
  | nil => simp
  | cons i ids ih =>
    rw [List.foldl_cons, ih, mem_delete, List.forall_mem_cons, and_assoc, and_left_comm]

theorem deleteHists_serverOf (ids : List ℕ) :
    (ids.foldl (fun t i => t.delete (.hist i)) t).serverOf = t.serverOf := by
  induction ids generalizing t with
  | nil => rfl
  | cons i ids ih =>
    rw [List.foldl_cons, ih]
    rfl

/-- A socket that is accepted and turned away. -/
theorem Valid.refuse (hv : t.Valid acc nh) (r : CloseResult) :
    Passes acc nh (acc + 1) nh t
      (Table.closeSocketGracefully { t with fds := insert (.client acc) t.fds } r (.client acc))
      True := by
  have hfree : .fd (.client acc) ∉ t.Used acc nh := Nat.lt_irrefl acc
  have hclosed : .client acc ∉ t.fds := fun hmem => hfree (hv.sound.opened_subset hmem)
  unfold closeSocketGracefully
  split
  -- FIN has arrived: the socket was open only in between
  · refine hv.create ∅ (by simp) (fun f => ?_) (by simp) hv.server (fun h hh => ?_) (by simp)
      (by simp)
    · simp only [Finset.erase_insert hclosed]
      simp
    · exact Used.mono hh (Nat.le_succ _) le_rfl le_rfl le_rfl fun b _ hold => hold
  · refine hv.createOne (x := .closeTimer t.nextTimer (.client acc)) rfl ?_ rfl
      (hv.server_insert (by simp)) (by simp) (Nat.le_succ _) le_rfl le_rfl (Nat.le_succ _)
      fun h hh => ?_
    · simp [newTimer, Object.fds]
    · rcases h with f | e
      · obtain rfl := Finset.mem_singleton.mp hh
        exact ⟨hfree, Nat.lt_succ_self acc⟩
      · obtain rfl := Finset.mem_singleton.mp hh
        exact ⟨Nat.lt_irrefl t.nextTimer, Nat.lt_succ_self t.nextTimer⟩

/-- A new client. -/
theorem Valid.newClient (hv : t.Valid acc nh) (hle : nh ≤ nh') :
    Passes acc nh (acc + 1) nh' t (t.new (.client acc)) True := by
  refine hv.createOne (x := .client acc) rfl rfl rfl (hv.server_insert (by simp)) ?_
    (Nat.le_succ _) hle le_rfl le_rfl fun h hh => ?_
  · rintro b hb ⟨⟩
    exact lt_irrefl _ hb
  · have hnew : ¬ acc < acc ∧ acc < acc + 1 := ⟨Nat.lt_irrefl acc, Nat.lt_succ_self acc⟩
    rcases h with f | e
    · obtain rfl := Finset.mem_singleton.mp hh
      exact hnew
    · have hevent : e = .clientRead acc ∨ e = .clientWrite acc := by
        simpa [Object.holds, Object.events] using hh
      rcases hevent with rfl | rfl
      · exact hnew
      · exact hnew

/-- A new Hybridbuf. -/
theorem Valid.newHist (hv : t.Valid acc nh) :
    Passes acc nh acc (nh + 1) t (t.new (.hist nh)) True := by
  refine hv.createOne (x := .hist nh) rfl rfl rfl (hv.server_insert (by simp)) (by simp) le_rfl
    (Nat.le_succ _) le_rfl le_rfl fun h hh => ?_
  rcases h with f | e
  · obtain rfl := Finset.mem_singleton.mp hh
    exact ⟨Nat.lt_irrefl nh, Nat.lt_succ_self nh⟩
  · exact absurd hh (Finset.notMem_empty e)

/-- `put_all_connection_slow_mode`. -/
theorem Valid.newSlowTimer (hv : t.Valid acc nh) (evtList : List EventId) :
    Passes acc nh acc nh t (t.newTimer (.slowTimer · evtList)) True := by
  refine hv.createOne (x := .slowTimer t.nextTimer evtList) rfl ?_ rfl
    (hv.server_insert (by simp)) (by simp) le_rfl le_rfl le_rfl (Nat.le_succ _) fun h hh => ?_
  · simp [newTimer, Object.fds]
  · rcases h with f | e
    · exact absurd hh (Finset.notMem_empty f)
    · obtain rfl := Finset.mem_singleton.mp hh
      exact ⟨Nat.lt_irrefl t.nextTimer, Nat.lt_succ_self t.nextTimer⟩

/-! ### The calls of a callback -/

theorem mem_newServer {x : Object} (hx : x.transient = false) (b : ℕ) :
    x ∈ (t.newServer b).objects ↔ x ∈ t.objects := by
  have hne : x ≠ .server b t.nextServer := by
    rintro rfl
    cases hx
  exact Finset.mem_insert.trans (or_iff_right hne)

theorem mem_deleteServer {x : Object} (hx : x.transient = false) (b : ℕ) (r : CloseResult) :
    x ∈ (t.deleteServer b r).objects ↔ x ∈ t.objects := by
  unfold deleteServer
  split
  · next n _ =>
    have hne : x ≠ .server b n := by
      rintro rfl
      cases hx
    exact (mem_closeSocketGracefully hx _ _).trans (mem_delete.trans (and_iff_right hne))
  · exact Iff.rfl

theorem deleteServer_serverOf (b : ℕ) (r : CloseResult) :
    (t.deleteServer b r).serverOf = Function.update t.serverOf b none := by
  unfold deleteServer
  split
  · rfl
  · next hnone => rw [← hnone, Function.update_eq_self]

theorem deleteServer_nextServer (b : ℕ) (r : CloseResult) :
    (t.deleteServer b r).nextServer = t.nextServer := by
  unfold deleteServer closeSocketGracefully
  split
  · split <;> rfl
  · rfl

theorem deleteIf_serverOf (x : Object) : (t.deleteIf x).serverOf = t.serverOf := by
  unfold deleteIf
  split <;> rfl

theorem deleteClient_serverOf (b : ℕ) (r : CloseResult) :
    (t.deleteClient b r).serverOf = t.serverOf := by
  rw [deleteClient, deleteIf_serverOf, deleteIf_serverOf, deleteIf_serverOf,
    closeSocketGracefully_serverOf]
  rfl

/-- What the calls of a callback of connection `b` do to the objects, where `left` is what they
leave of the connection. -/
structure Called (b : ℕ) (calls : List Call) (left : Option Bool) (t t' : Table) : Prop where
  lasting : ∀ x, x.transient = false →
    (x ∈ t'.objects ↔ x ∈ t.objects ∧ (left = none → x.clientOf ≠ some b))
  serving : (t'.serverOf b).isSome = left.getD false
  others : ∀ b', b' ≠ b → t'.serverOf b' = t.serverOf b'
  server : ∀ n, n < t.nextServer →
    (t'.serverOf b = some n ↔ t.serverOf b = some n ∧ .closeServer ∉ calls)

/-- A timer that will close a socket stays where it is. -/
theorem closeTimer_mem_call {k : ℕ} {fd : Fd} (hk : .closeTimer k fd ∈ t.objects) (b : ℕ) (io : Io)
    (c : Call) : .closeTimer k fd ∈ (t.call b io c).objects := by
  -- closing gracefully deletes nothing, and may add a timer
  have closing : ∀ {t : Table} (r : CloseResult) (fd' : Fd), .closeTimer k fd ∈ t.objects →
      .closeTimer k fd ∈ (t.closeSocketGracefully r fd').objects := by
    intro t r fd' hmem
    unfold closeSocketGracefully
    split
    · exact hmem
    · exact Finset.mem_insert_of_mem hmem
  cases c with
  | connect => exact Finset.mem_insert_of_mem hk
  | closeServer =>
    unfold call deleteServer
    dsimp only
    split
    · exact closing _ _ (mem_delete.mpr ⟨Object.noConfusion, hk⟩)
    · exact hk
  | closeClient =>
    have hkept : .closeTimer k fd ∈ (t.delete (.client b)).objects :=
      mem_delete.mpr ⟨Object.noConfusion, hk⟩
    have hsocket := closing io.clientClose (.client b) hkept
    simpa [call, deleteClient, mem_deleteIf] using hsocket
  | _ => exact hk

/-- A call that moves bytes leaves the tables alone. -/
theorem call_transfers {c : Call} (hc : c.transfers = true) (b : ℕ) (io : Io) :
    t.call b io c = t := by
  cases c <;> first | rfl | cases hc

theorem Called.of_lifecycle {b : ℕ} {io : Io} {serving : Bool} {calls : List Call}
    {left : Option Bool} (h : Lifecycle serving calls left)
    (hserving : (t.serverOf b).isSome = serving) :
    Called b calls left t (calls.foldl (call b io) t) := by
  induction h generalizing t with
  | done => exact ⟨by simp, hserving, fun _ _ => rfl, by simp⟩
  | connect _ ih =>
    have hnone : t.serverOf b = none := by simpa using hserving
    have h := @ih (t.newServer b) (by simp [newServer])
    refine ⟨fun x hx => ?_, h.serving, fun b' hb => ?_, fun n hn => ?_⟩
    · exact (h.lasting x hx).trans (and_congr_left' (mem_newServer hx b))
    · exact (h.others b' hb).trans (Function.update_of_ne hb _ _)
    · -- the new server has a new number
      have hnew : (t.newServer b).serverOf b ≠ some n := by
        simp only [newServer, Function.update_self, ne_eq, Option.some.injEq]
        exact hn.ne'
      rw [List.foldl_cons, call, h.server n (hn.trans (Nat.lt_succ_self _)), hnone]
      simp [hnew]
  | refused _ ih =>
    have h := @ih (t.connectTcp b) hserving
    refine ⟨h.lasting, h.serving, h.others, fun n hn => ?_⟩
    -- the number is taken, although there is no server
    rw [List.foldl_cons, call, h.server n (hn.trans (Nat.lt_succ_self _))]
    simp [connectTcp]
  | closeServer _ ih =>
    have h := @ih (t.deleteServer b io.serverClose) (by simp [deleteServer_serverOf])
    refine ⟨fun x hx => ?_, h.serving, fun b' hb => ?_, fun n hn => ?_⟩
    · exact (h.lasting x hx).trans (and_congr_left' (mem_deleteServer hx b io.serverClose))
    · refine (h.others b' hb).trans ?_
      rw [deleteServer_serverOf, Function.update_of_ne hb]
    · rw [List.foldl_cons, call, h.server n (by rwa [deleteServer_nextServer])]
      simp [deleteServer_serverOf]
  | closeClient =>
    have hpointer := deleteClient_serverOf (t := t) b io.clientClose
    refine ⟨fun x hx => ?_, ?_, fun b' _ => congrFun hpointer b', fun n _ => ?_⟩
    · exact (mem_deleteClient hx b io.clientClose).trans (by simp)
    · exact (congrArg Option.isSome (congrFun hpointer b)).trans hserving
    · exact (congrArg (· = some n) (congrFun hpointer b)).to_iff.trans (by simp)
  | @transfer c serving calls left hc _ ih =>
    have h := ih hserving
    have hne : Call.closeServer ≠ c := by
      rintro rfl
      cases hc
    rw [List.foldl_cons, call_transfers hc]
    exact ⟨h.lasting, h.serving, h.others, fun n hn => by simpa [hne] using h.server n hn⟩

/-- **The calls of a callback** lose the socket of a connection attempt that fails, and the reader
of the responses when the client is closed. -/
theorem Valid.calls {b : ℕ} {io : Io} {serving : Bool} {calls : List Call} {left : Option Bool}
    (hv : t.Valid acc nh) (h : Lifecycle serving calls left)
    (hserving : (t.serverOf b).isSome = serving) (hclient : .client b ∈ t.objects) :
    Passes acc nh acc nh t (calls.foldl (call b io) t)
      ((∀ bs, .page503 bs ∉ calls) ∧ (.closeClient ∈ calls → .responseBuf b ∉ t.objects)) := by
  induction h generalizing t with
  | done => exact hv.refl.congr (by simp)
  | connect _ ih =>
    have h₁ := hv.newServer (b := b) (by simpa using hserving)
    have h₂ := ih h₁.valid (by simp [Table.newServer]) ((mem_newServer rfl b).mpr hclient)
    refine (h₁.trans h₂).congr ?_
    rw [mem_newServer rfl b]
    simp
  -- the socket of the failed attempt stays open
  | @refused bs _ _ _ ih =>
    have h₁ := hv.connectTcp b
    refine (h₁.trans (ih h₁.valid hserving hclient)).congr ?_
    rw [false_and, false_iff]
    rintro ⟨hpage, -⟩
    exact hpage bs List.mem_cons_self
  | closeServer _ ih =>
    have h₁ := hv.deleteServer io.serverClose hserving
    have h₂ := ih h₁.valid (by simp [deleteServer_serverOf])
      ((mem_deleteServer rfl b io.serverClose).mpr hclient)
    refine (h₁.trans h₂).congr ?_
    rw [mem_deleteServer rfl]
    simp
  -- `response_buf` has two descriptors, and deleting it closes one
  | closeClient => exact (hv.deleteClient io.clientClose hclient).congr (by simp)
  | @transfer c serving calls left hc _ ih =>
    rw [List.foldl_cons, call_transfers hc]
    have hpage : ∀ bs, Call.page503 bs ≠ c := by
      rintro bs rfl
      cases hc
    have hclose : Call.closeClient ≠ c := by
      rintro rfl
      cases hc
    exact (ih hv hserving hclient).congr (by simp [hpage, hclose])

end Table

end LSProxy
