import LSProxy.Lib.Rotation
import LSProxy.Model.LocalAddr

/-!
# Probing the local addresses

`next_local_addr` goes round its addresses: the port first, and at the end of the ports the last
octet. `AtIndex` numbers its states, so that a call is one step of a rotation
(`nextLocalAddr_rotates`), on a machine of either byte order.

* `local_addr_complete` — as many calls as there are addresses return each address once, whatever
  the state they start in, so `connect_TCP` gives up only when all of them are busy.
-/

namespace LSProxy

open Rotation

/-! ### The cycle -/

/-- How many ports an address has. -/
def portCount : ℕ := 65100 - 4100 + 1

/-- The address of index `i`: ports come first. -/
def place (i : ℕ) : Endpoint :=
  ⟨[127, 0, 0, UInt8.ofNat (i / portCount % 255 + 1)], UInt16.ofNat (4100 + i % portCount)⟩

/-- The addresses that `next_local_addr` is for. -/
def InRange (x : Endpoint) : Prop :=
  ∃ a : UInt8, 1 ≤ a ∧ x.host = [127, 0, 0, a] ∧ 4100 ≤ x.port ∧ x.port ≤ 65100

/-- The word that holds `127.0.0.a` in network byte order. -/
def ipWord : ByteOrder → ℕ → ℕ
  | .littleEndian, a => a * 2 ^ 24 + 127
  | .bigEndian, a => 127 * 2 ^ 24 + a

/-- The static variables after the address of index `i` has been returned. -/
def AtIndex (order : ByteOrder) (st : LocalAddr) (i : ℕ) : Prop :=
  st.port.toNat = 4100 + i % portCount ∧
    st.addr.sAddr.toNat = ipWord order (i / portCount % 255 + 1)

theorem atIndex_initial (order : ByteOrder) : AtIndex order (.initial order) 0 := by
  cases order <;> exact ⟨by decide, by decide⟩

/-- What lies in memory is the four octets, on either kind of machine. -/
theorem octets_of_ipWord {order : ByteOrder} {x : UInt32} {a : ℕ} (ha : a < 256)
    (hx : x.toNat = ipWord order a) : octets order x = [127, 0, 0, UInt8.ofNat a] := by
  cases order with
  | littleEndian =>
    have hword : x.toNat = a * 2 ^ 24 + 127 := hx
    have h₀ : UInt8.ofNat x.toNat = 127 := UInt8.toNat_inj.mp (by simp; omega)
    have h₁ : UInt8.ofNat (x.toNat / 2 ^ 8) = 0 := UInt8.toNat_inj.mp (by simp; omega)
    have h₂ : UInt8.ofNat (x.toNat / 2 ^ 16) = 0 := UInt8.toNat_inj.mp (by simp; omega)
    have h₃ : x.toNat / 2 ^ 24 = a := by omega
    simp only [octets]
    rw [h₀, h₁, h₂, h₃]
  | bigEndian =>
    have hword : x.toNat = 127 * 2 ^ 24 + a := hx
    have h₀ : UInt8.ofNat x.toNat = UInt8.ofNat a := UInt8.toNat_inj.mp (by simp; omega)
    have h₁ : UInt8.ofNat (x.toNat / 2 ^ 8) = 0 := UInt8.toNat_inj.mp (by simp; omega)
    have h₂ : UInt8.ofNat (x.toNat / 2 ^ 16) = 0 := UInt8.toNat_inj.mp (by simp; omega)
    have h₃ : x.toNat / 2 ^ 24 = 127 := by omega
    simp only [octets]
    rw [h₀, h₁, h₂, h₃]
    rfl

/-- Advancing an address goes to the next last octet, and from 255 back to 1. -/
theorem advanceIp_ipWord {order : ByteOrder} {x : UInt32} {a : ℕ} (ha : a < 255)
    (hx : x.toNat = ipWord order (a + 1)) :
    (advanceIp order x).toNat = ipWord order ((a + 1) % 255 + 1) := by
  cases order with
  | littleEndian =>
    have hword : x.toNat = (a + 1) * 2 ^ 24 + 127 := hx
    have hlast : x = 0xff00007f ↔ a = 254 := by
      rw [← UInt32.toNat_inj]
      simp
      omega
    simp only [advanceIp, ipWord]
    by_cases h : a = 254
    · rw [if_pos (hlast.mpr h)]
      simp
      omega
    · rw [if_neg (hlast.not.mpr h)]
      simp
      omega
  | bigEndian =>
    have hword : x.toNat = 127 * 2 ^ 24 + (a + 1) := hx
    have hlast : x = 0x7f0000ff ↔ a = 254 := by
      rw [← UInt32.toNat_inj]
      simp
      omega
    simp only [advanceIp, ipWord]
    by_cases h : a = 254
    · rw [if_pos (hlast.mpr h), h]
      rfl
    · rw [if_neg (hlast.not.mpr h)]
      simp
      omega

theorem atIndex_next {order : ByteOrder} {st : LocalAddr} {i : ℕ} (h : AtIndex order st i) :
    AtIndex order (nextLocalAddr order st).1 (i + 1) := by
  obtain ⟨hport, haddr⟩ := h
  have hnext : (st.port + 1).toNat = 4100 + i % portCount + 1 := by
    rw [UInt16.toNat_add, hport]
    have hlt : i % portCount < portCount := Nat.mod_lt _ (by decide)
    unfold portCount at hlt ⊢
    simp
    omega
  -- the last port of an address
  have hcarry : 65100 < st.port + 1 ↔ i % portCount = 61000 := by
    have hlt : i % portCount < 61001 := Nat.mod_lt _ (by decide)
    have h65100 : (65100 : UInt16).toNat = 65100 := rfl
    rw [UInt16.lt_iff_toNat_lt, hnext, h65100]
    omega
  unfold nextLocalAddr AtIndex
  by_cases hwrap : 65100 < st.port + 1
  · -- the port carries into the address
    have hlast := hcarry.mp hwrap
    have hmod : (i + 1) % portCount = 0 := by unfold portCount at hlast ⊢; omega
    have hdiv : (i + 1) / portCount = i / portCount + 1 := by unfold portCount at hlast ⊢; omega
    rw [if_pos hwrap, hmod, hdiv]
    refine ⟨rfl, ?_⟩
    show (advanceIp order st.addr.sAddr).toNat = _
    rw [advanceIp_ipWord (Nat.mod_lt _ (by decide)) haddr]
    congr 1
    omega
  · have hlast := hcarry.not.mp hwrap
    have hlt : i % portCount < portCount := Nat.mod_lt _ (by decide)
    have hmod : (i + 1) % portCount = i % portCount + 1 := by
      unfold portCount at hlast hlt ⊢
      omega
    have hdiv : (i + 1) / portCount = i / portCount := by
      unfold portCount at hlast hlt ⊢
      omega
    rw [if_neg hwrap, hmod, hdiv]
    exact ⟨hnext, haddr⟩

/-- A call returns what it has put into the static variables. -/
theorem endpoint_next (order : ByteOrder) (st : LocalAddr) :
    endpoint order (nextLocalAddr order st).2
      = ⟨octets order (nextLocalAddr order st).1.addr.sAddr, (nextLocalAddr order st).1.port⟩ := by
  unfold nextLocalAddr
  split <;> simp [endpoint]

/-- **`next_local_addr` is a rotation** of `127.0.0.[1-255]` with the ports `[4100-65100]`. -/
theorem nextLocalAddr_rotates (order : ByteOrder) :
    Rotates (nextLocalAddr order) (endpoint order) (AtIndex order) place totalLocalAddr where
  step := atIndex_next
  returns := by
    intro st i h
    obtain ⟨hport, haddr⟩ := atIndex_next h
    have hlt : (i + 1) % portCount < portCount := Nat.mod_lt _ (by decide)
    rw [endpoint_next, octets_of_ipWord (by omega) haddr]
    unfold place
    congr 1
    apply UInt16.toNat_inj.mp
    rw [hport, UInt16.toNat_ofNat']
    refine (Nat.mod_eq_of_lt ?_).symm
    unfold portCount at hlt ⊢
    omega
  cyclic := by
    -- the index is read modulo the number of places
    intro i
    have hdiv : i % totalLocalAddr / portCount % 255 = i / portCount % 255 := by
      rw [show totalLocalAddr = portCount * 255 from rfl, Nat.mod_mul_right_div_self, Nat.mod_mod]
    have hmod : i % totalLocalAddr % portCount = i % portCount :=
      Nat.mod_mul_left_mod i 255 portCount
    unfold place
    rw [hdiv, hmod]

/-- No two of the places are the same. -/
theorem place_injective :
    ∀ i < totalLocalAddr, ∀ j < totalLocalAddr, place i = place j → i = j := by
  intro i hi j hj heq
  obtain ⟨hhost, hport⟩ := Endpoint.mk.inj heq
  have hoct : UInt8.ofNat (i / portCount % 255 + 1) = UInt8.ofNat (j / portCount % 255 + 1) := by
    simpa using hhost
  have hdiv := congrArg UInt8.toNat hoct
  have hmod := congrArg UInt16.toNat hport
  unfold portCount at hdiv hmod
  unfold totalLocalAddr at hi hj
  simp at hdiv hmod
  omega

/-- The places are the addresses in range. -/
theorem place_inRange {x : Endpoint} : (∃ i < totalLocalAddr, place i = x) ↔ InRange x := by
  constructor
  · rintro ⟨i, hi, rfl⟩
    refine ⟨UInt8.ofNat (i / portCount % 255 + 1), ?_, rfl, ?_, ?_⟩
    · rw [UInt8.le_iff_toNat_le]
      simp
      omega
    · unfold place portCount
      rw [UInt16.le_iff_toNat_le]
      simp
      omega
    · unfold place portCount
      rw [UInt16.le_iff_toNat_le]
      simp
      omega
  · obtain ⟨host, port⟩ := x
    rintro ⟨a, ha, rfl, hlow, hhigh⟩
    have hbyte := a.toNat_lt
    rw [UInt8.le_iff_toNat_le] at ha
    rw [UInt16.le_iff_toNat_le] at hlow hhigh
    simp at ha hlow hhigh
    -- the index counts the addresses before, and the ports before in its own
    refine ⟨(a.toNat - 1) * portCount + (port.toNat - 4100), ?_, ?_⟩
    · unfold totalLocalAddr portCount
      omega
    · have hdiv : ((a.toNat - 1) * portCount + (port.toNat - 4100)) / portCount % 255 + 1
          = a.toNat := by
        unfold portCount
        omega
      have hmod : ((a.toNat - 1) * portCount + (port.toNat - 4100)) % portCount
          = port.toNat - 4100 := by
        unfold portCount
        omega
      unfold place
      rw [hdiv, hmod, UInt8.ofNat_toNat, Nat.add_sub_cancel' hlow, UInt16.ofNat_toNat]

/-! ### Reachable states -/

/-- A state that calls lead to has an index. -/
theorem LocalAddr.Reachable.atIndex {order : ByteOrder} {st : LocalAddr}
    (h : LocalAddr.Reachable order st) : ∃ i, AtIndex order st i := by
  induction h with
  | start => exact ⟨0, atIndex_initial order⟩
  | next _ ih =>
    obtain ⟨i, hi⟩ := ih
    exact ⟨i + 1, atIndex_next hi⟩

/-- The loop of `connect_TCP` is probing. -/
theorem bindLoop_eq_probe (order : ByteOrder) (bind : SockaddrIn → Bool) (rounds : ℕ)
    (st : LocalAddr) :
    bindLoop order bind rounds st = probe (nextLocalAddr order) bind rounds st := by
  induction rounds generalizing st with
  | zero => rfl
  | succ rounds ih =>
    unfold bindLoop probe
    simp only [ih]

/-- What `connect_TCP` comes to, by what the probing finds. -/
theorem connectTCP_result (order : ByteOrder) (bind : SockaddrIn → Bool) (connectOk : Bool)
    (st : LocalAddr) : (connectTCP order bind connectOk st).2
      = match (probe (nextLocalAddr order) bind totalLocalAddr st).2 with
        | none => .usedUpPorts
        | some lcAddr => if connectOk then .connected lcAddr else .cannotConnect lcAddr := by
  unfold connectTCP
  rw [bindLoop_eq_probe]
  rcases probe (nextLocalAddr order) bind totalLocalAddr st with ⟨st', bound⟩
  cases bound <;> rfl

/-- Probing comes back with nothing only when every address in range is busy. -/
theorem probe_eq_none_iff_busy {order : ByteOrder} {st : LocalAddr} {i : ℕ}
    (hi : AtIndex order st i) (busy : Endpoint → Bool) :
    (probe (nextLocalAddr order) (fun a => !busy (endpoint order a)) totalLocalAddr st).2 = none ↔
      ∀ x, InRange x → busy x = true := by
  rw [(nextLocalAddr_rotates order).probe_eq_none_iff (fun x => !busy x) hi]
  constructor
  · intro hall x hx
    obtain ⟨j, hj, rfl⟩ := place_inRange.mpr hx
    simpa using hall j hj
  · intro hall j hj
    simpa using hall _ (place_inRange.mp ⟨j, hj, rfl⟩)

/-- **Probing the local addresses is complete.** From every state, as many calls as there are
addresses return each of them once and nothing else, and machines of either byte order go through
the same addresses. So, whichever addresses are busy, `connect_TCP` binds one that is not, if
there is one, and says that all ports are used up only if all of them are. -/
theorem local_addr_complete {order : ByteOrder} {st : LocalAddr}
    (h : LocalAddr.Reachable order st) :
    ((outputs (nextLocalAddr order) totalLocalAddr st).map (endpoint order)).Nodup ∧
    (∀ x, x ∈ (outputs (nextLocalAddr order) totalLocalAddr st).map (endpoint order) ↔
      InRange x) ∧
    (∀ k, (outputs (nextLocalAddr .littleEndian) k (.initial .littleEndian)).map
        (endpoint .littleEndian)
      = (outputs (nextLocalAddr .bigEndian) k (.initial .bigEndian)).map (endpoint .bigEndian)) ∧
    ∀ (busy : Endpoint → Bool) (connectOk : Bool),
      ((∃ x, InRange x ∧ busy x = false) →
        ∃ lcAddr, InRange (endpoint order lcAddr) ∧ busy (endpoint order lcAddr) = false ∧
          (connectTCP order (fun a => !busy (endpoint order a)) connectOk st).2
            = if connectOk then .connected lcAddr else .cannotConnect lcAddr) ∧
      ((connectTCP order (fun a => !busy (endpoint order a)) connectOk st).2 = .usedUpPorts ↔
        ∀ x, InRange x → busy x = true) := by
  obtain ⟨i, hi⟩ := h.atIndex
  have hrot := nextLocalAddr_rotates order
  have hmem : ∀ x, x ∈ (outputs (nextLocalAddr order) totalLocalAddr st).map (endpoint order) ↔
      InRange x := fun x => (hrot.mem_outputs hi).trans place_inRange
  refine ⟨hrot.outputs_nodup hi place_injective, hmem, fun k => ?_, fun busy connectOk => ?_⟩
  · rw [(nextLocalAddr_rotates .littleEndian).outputs_eq k (atIndex_initial _),
      (nextLocalAddr_rotates .bigEndian).outputs_eq k (atIndex_initial _)]
  · have hnone := probe_eq_none_iff_busy hi busy
    rw [connectTCP_result]
    cases hprobe : (probe (nextLocalAddr order) (fun a => !busy (endpoint order a))
      totalLocalAddr st).2 with
    | none =>
      have hall := hnone.mp hprobe
      refine ⟨?_, iff_of_true rfl hall⟩
      rintro ⟨x, hx, hfree⟩
      rw [hall x hx] at hfree
      cases hfree
    | some lcAddr =>
      -- what probing finds is one of the outputs, so it is in range
      obtain ⟨hout, hfree⟩ := probe_some hprobe
      have hrange := (hmem _).mp (List.mem_map_of_mem hout)
      have hbusy : busy (endpoint order lcAddr) = false := by simpa using hfree
      refine ⟨fun _ => ⟨lcAddr, hrange, hbusy, rfl⟩, iff_of_false ?_ ?_⟩
      · cases connectOk <;> simp
      · intro hall
        rw [hall _ hrange] at hbusy
        cases hbusy

/-- From the start, with the first address busy: an address is bound all the same. -/
theorem local_addr_complete_start : ∃ lcAddr, InRange (endpoint .littleEndian lcAddr) ∧
    endpoint .littleEndian lcAddr ≠ ⟨[127, 0, 0, 1], 4101⟩ ∧
    (connectTCP .littleEndian
        (fun a => !decide (endpoint .littleEndian a = ⟨[127, 0, 0, 1], 4101⟩)) true
        (.initial .littleEndian)).2 = .connected lcAddr := by
  have hstart : LocalAddr.Reachable .littleEndian (.initial .littleEndian) := .start
  obtain ⟨-, -, -, hconnect⟩ := local_addr_complete hstart
  obtain ⟨lcAddr, hrange, hfree, hres⟩ :=
    (hconnect (fun x => decide (x = ⟨[127, 0, 0, 1], 4101⟩)) true).1
      ⟨⟨[127, 0, 0, 1], 4100⟩, ⟨1, by decide, rfl, by decide, by decide⟩, by decide⟩
  exact ⟨lcAddr, hrange, by simpa using hfree, by simpa using hres⟩

end LSProxy
