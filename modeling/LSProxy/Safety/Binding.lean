import LSProxy.Lib.Occupancy
import LSProxy.Safety.Probing

/-!
# What binding costs

`connect_TCP` looks for a local address by linear probing, which it calls slow when there are
more than 14 million connections. It goes on where the last call has stopped, so that an address is
refused only if its socket has been there while the probing has come round once.

* `bindTries` — how often one call of `connect_TCP` calls `bind`;
* `Binds` — calls of `connect_TCP` one after another, and addresses given back;
* `bindLoop_visits` — the loop goes round the addresses (`Occupancy`);
* `binding_cost` — what all calls together cost.
-/

namespace LSProxy

open Rotation Occupancy

/-! ### Calls of `connect_TCP` -/

/-- How often the loop of `connect_TCP` calls `bind`, with `rounds` rounds to go. -/
def bindTries (order : ByteOrder) (bind : SockaddrIn → Bool) : ℕ → LocalAddr → ℕ
  | 0, _ => 0
  | rounds + 1, st =>
    if bind (nextLocalAddr order st).2 then 1
    else bindTries order bind rounds (nextLocalAddr order st).1 + 1

/-- `bind`, while the addresses `held` are in use. -/
def bindUnlessHeld (order : ByteOrder) (held : Finset Endpoint) (a : SockaddrIn) : Bool :=
  endpoint order a ∉ held

/-- The address that the socket of a call is bound to. It is not closed when `connect` fails. -/
def ConnectResult.lcAddr : ConnectResult → Option SockaddrIn
  | .connected a | .cannotConnect a => some a
  | .usedUpPorts => none

/-- The addresses in use once a call has bound its socket. -/
def nowHeld (order : ByteOrder) (held : Finset Endpoint) (a : Option SockaddrIn) :
    Finset Endpoint :=
  a.elim held fun a => insert (endpoint order a) held

/-- Calls of `connect_TCP` from the start of the process on, and addresses given back at any time;
at most `M` are in use when one is looked for. So far there have been `connects` calls, which have
called `bind` `tries` times. -/
inductive Binds (order : ByteOrder) (M : ℕ) : LocalAddr → Finset Endpoint → ℕ → ℕ → Prop
  | start : Binds order M (.initial order) ∅ 0 0
  | connect {st : LocalAddr} {held : Finset Endpoint} {connects tries : ℕ} {connectOk : Bool}
      (h : Binds order M st held connects tries) (hroom : held.card < M) :
      Binds order M (connectTCP order (bindUnlessHeld order held) connectOk st).1
        (nowHeld order held (connectTCP order (bindUnlessHeld order held) connectOk st).2.lcAddr)
        (connects + 1)
        (tries + bindTries order (bindUnlessHeld order held) totalLocalAddr st)
  | released {st : LocalAddr} {held : Finset Endpoint} {connects tries : ℕ}
      (h : Binds order M st held connects tries) (x : Endpoint) :
      Binds order M st (held.erase x) connects tries

/-! ### The loop goes round the addresses -/

/-- No address comes again before all the others have. -/
theorem place_ne {i j : ℕ} (hij : i < j) (hj : j < i + totalLocalAddr) : place i ≠ place j := by
  intro heq
  have hcyclic := (nextLocalAddr_rotates .littleEndian).cyclic
  rw [← hcyclic i, ← hcyclic j] at heq
  have hpos : 0 < totalLocalAddr := by decide
  have hmod := place_injective _ (Nat.mod_lt i hpos) _ (Nat.mod_lt j hpos) heq
  -- less than one round lies between the two
  have hdvd := (Nat.modEq_iff_dvd' hij.le).mp hmod
  have hle := Nat.le_of_dvd (Nat.sub_pos_of_lt hij) hdvd
  omega

/-- **The loop of one call** visits addresses in order, all but the last in vain. -/
theorem bindLoop_visits {order : ByteOrder} {M : ℕ} {held : Finset Endpoint} (hroom : held.card < M)
    (rounds : ℕ) {st : LocalAddr} {i fails : ℕ} (hi : AtIndex order st i)
    (h : Occupancy.Run place M i held fails) :
    AtIndex order (bindLoop order (bindUnlessHeld order held) rounds st).1
        (i + bindTries order (bindUnlessHeld order held) rounds st) ∧
      ∃ fails', Occupancy.Run place M (i + bindTries order (bindUnlessHeld order held) rounds st)
          (nowHeld order held (bindLoop order (bindUnlessHeld order held) rounds st).2) fails' ∧
        fails + bindTries order (bindUnlessHeld order held) rounds st ≤ fails' + 1 := by
  induction rounds generalizing st i fails with
  | zero => exact ⟨hi, fails, h, Nat.le_succ _⟩
  | succ rounds ih =>
    have hplace : endpoint order (nextLocalAddr order st).2 = place (i + 1) :=
      (nextLocalAddr_rotates order).returns hi
    have hnext := atIndex_next hi
    unfold bindLoop bindTries
    by_cases hbind : bindUnlessHeld order held (nextLocalAddr order st).2 = true
    · have hfree : place (i + 1) ∉ held := by
        rw [← hplace]
        exact of_decide_eq_true hbind
      rw [if_pos hbind]
      simp only [hbind, if_true]
      refine ⟨hnext, fails, ?_, le_rfl⟩
      rw [nowHeld, Option.elim_some, hplace]
      exact h.taken hfree hroom
    · have hheld : place (i + 1) ∈ held := by
        rw [← hplace]
        exact not_not.mp fun hfree => hbind (decide_eq_true hfree)
      rw [if_neg hbind]
      simp only [hbind, Bool.false_eq_true, if_false]
      obtain ⟨hindex, fails', hrun, hfails⟩ := ih hnext (h.occupied hheld)
      rw [← Nat.add_assoc, Nat.add_right_comm]
      exact ⟨hindex, fails', hrun, by omega⟩

/-- What `connect_TCP` leaves is what its loop leaves. -/
theorem connectTCP_loop (order : ByteOrder) (bind : SockaddrIn → Bool) (connectOk : Bool)
    (st : LocalAddr) :
    (connectTCP order bind connectOk st).1 = (bindLoop order bind totalLocalAddr st).1 ∧
      (connectTCP order bind connectOk st).2.lcAddr =
        (bindLoop order bind totalLocalAddr st).2 := by
  unfold connectTCP
  cases hbound : (bindLoop order bind totalLocalAddr st).2 with
  | none => simp [hbound, ConnectResult.lcAddr]
  | some a => cases connectOk <;> simp [hbound, ConnectResult.lcAddr]

theorem bindTries_pos (order : ByteOrder) (bind : SockaddrIn → Bool) {rounds : ℕ}
    (hrounds : 0 < rounds) (st : LocalAddr) : 0 < bindTries order bind rounds st := by
  obtain ⟨rounds, rfl⟩ := Nat.exists_eq_succ_of_ne_zero hrounds.ne'
  unfold bindTries
  split
  · exact Nat.one_pos
  · exact Nat.succ_pos _

/-- **All calls together** are one way round the addresses. -/
theorem Binds.visits {order : ByteOrder} {M : ℕ} {st : LocalAddr} {held : Finset Endpoint}
    {connects tries : ℕ} (h : Binds order M st held connects tries) :
    AtIndex order st tries ∧ ∃ fails, Occupancy.Run place M tries held fails ∧
      tries ≤ connects + fails ∧ connects ≤ tries := by
  induction h with
  | start => exact ⟨atIndex_initial order, 0, .start, le_rfl, le_rfl⟩
  | @connect st held connects tries connectOk h hroom ih =>
    obtain ⟨hindex, fails, hrun, hle, hge⟩ := ih
    obtain ⟨hst, haddr⟩ := connectTCP_loop order (bindUnlessHeld order held) connectOk st
    obtain ⟨hindex', fails', hrun', hfails⟩ := bindLoop_visits hroom totalLocalAddr hindex hrun
    have hpos := bindTries_pos order (bindUnlessHeld order held)
      (show 0 < totalLocalAddr by decide) st
    rw [hst, haddr]
    exact ⟨hindex', fails', hrun', by omega, by omega⟩
  | released h x ih =>
    obtain ⟨hindex, fails, hrun, hle, hge⟩ := ih
    exact ⟨hindex, fails, hrun.released x, hle, hge⟩

/-- **What binding costs.** However connections come and go, with at most `M` local addresses in use
at a time, a call of `connect_TCP` calls `bind` no more than `N / (N - M)` times on average, where
`N` is `total_local_addr`; and as long as not all `N` addresses have been handed out, each call does
so just once. -/
theorem binding_cost {order : ByteOrder} {M : ℕ} {st : LocalAddr} {held : Finset Endpoint}
    {connects tries : ℕ} (h : Binds order M st held connects tries) :
    tries * (totalLocalAddr - M) ≤ connects * totalLocalAddr ∧
      (tries < totalLocalAddr → tries = connects) := by
  obtain ⟨-, fails, hrun, hle, hge⟩ := h.visits
  have hfails := hrun.fails_le (show 0 < totalLocalAddr by decide) fun i j => place_ne
  constructor
  · have hround : tries / totalLocalAddr * totalLocalAddr ≤ tries := Nat.div_mul_le_self _ _
    have hcost : tries * totalLocalAddr ≤ connects * totalLocalAddr + tries * M :=
      calc tries * totalLocalAddr
          ≤ (connects + M * (tries / totalLocalAddr)) * totalLocalAddr :=
            Nat.mul_le_mul_right _ (hle.trans (Nat.add_le_add_left hfails _))
        _ = connects * totalLocalAddr + M * (tries / totalLocalAddr * totalLocalAddr) := by
            rw [Nat.add_mul, Nat.mul_assoc]
        _ ≤ connects * totalLocalAddr + tries * M := by
            rw [Nat.mul_comm tries M]
            exact Nat.add_le_add_left (Nat.mul_le_mul_left M hround) _
    rw [Nat.mul_sub]
    omega
  · intro hfirst
    rw [Nat.div_eq_of_lt hfirst, Nat.mul_zero] at hfails
    omega

/-- Two calls, and the address of the first is given back in between. -/
theorem binding_cost_two :
    ∃ (st : LocalAddr) (held : Finset Endpoint) (tries : ℕ),
      Binds .littleEndian 65536 st held 2 tries ∧ held.card = 1 ∧
        tries * (totalLocalAddr - 65536) ≤ 2 * totalLocalAddr := by
  have h₁ := @Binds.connect .littleEndian 65536 _ _ _ _ true .start (by decide)
  have h₂ := h₁.released ⟨[127, 0, 0, 1], 4101⟩
  have h₃ := @Binds.connect .littleEndian 65536 _ _ _ _ true h₂ (by decide +kernel)
  exact ⟨_, _, _, h₃, by decide +kernel, (binding_cost h₃).1⟩

end LSProxy
