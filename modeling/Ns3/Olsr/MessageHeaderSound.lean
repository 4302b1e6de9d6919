import Ns3.Olsr.MessageHeader

/-!
# The codec of `MessageHeader`

What is written of a message below 2^16 bytes is read back. Of any bytes, a
message is read as far as it announces, if the sizes of its link messages fit
into each other; nothing in the source checks that they do.
-/

namespace Ns3.MessageHeader

open ByteReader

/-! ## Messages that were written -/

theorem reads_readU8 (x : UInt8) : readU8.Reads (writeU8 x) x := by
  have h : (word 1).Reads (writeU8 x) x.toNat := reads_word x.toNat_lt
  have hread := h.bind_pure UInt8.ofNat
  rwa [UInt8.ofNat_toNat] at hread

theorem reads_readU16 {x : Nat} (h : x < 65536) : readU16.Reads (writeHton 2 x) (UInt16.ofNat x) :=
  (reads_word h).bind_pure UInt16.ofNat

theorem reads_readAddress (a : Ipv4Address) : readAddress.Reads (writeAddress a) a := by
  have h : (word 4).Reads (writeAddress a) a.val := reads_word a.isLt
  have hread := h.bind_pure (Fin.ofNat 4294967296)
  rwa [Fin.ofNat_val_eq_self] at hread

theorem reads_association (a : Association) : Association.deserialize.Reads a.serialize a :=
  (reads_readAddress a.address).bind ((reads_readAddress a.mask).bind_pure _)

theorem reads_neighbors (as : List Ipv4Address) :
    (LinkMessage.deserializeNeighbors as.length).Reads (as.flatMap writeAddress) as := by
  induction as with
  | nil =>
    rw [LinkMessage.deserializeNeighbors, loop_stop (by simp)]
    exact reads_pure []
  | cons a as ih =>
    rw [LinkMessage.deserializeNeighbors, loop_step (by simp; omega), List.flatMap_cons]
    have hstep := (reads_readAddress a).bind_pure fun address => (address, ((a :: as).length : Int) - 1)
    apply hstep.bind
    have hcount : ((a :: as).length : Int) - 1 = as.length := by simp
    dsimp only
    rw [hcount]
    exact ih.bind_pure _

theorem LinkMessage.size_eq (lm : LinkMessage) : (lm.size - 4 : Int).tmod IPV4_ADDRESS_SIZE = 0 ∧
      (lm.size - 4 : Int).tdiv IPV4_ADDRESS_SIZE = lm.neighborInterfaceAddresses.length := by
  have hsize : (lm.size - 4 : Int) = IPV4_ADDRESS_SIZE * lm.neighborInterfaceAddresses.length := by
    rw [LinkMessage.size]
    push_cast
    omega
  rw [hsize]
  exact ⟨Int.mul_tmod_right _ _, Int.mul_tdiv_cancel_left _ (by decide)⟩

theorem reads_link (lm : LinkMessage) {helloSizeLeft : UInt16} (h : lm.size ≤ helloSizeLeft.toNat) :
    (LinkMessage.deserialize helloSizeLeft).Reads lm.serialize (lm, helloSizeLeft - UInt16.ofNat lm.size) := by
  have hmin : 4 ≤ lm.size := Nat.le_add_right 4 _
  have hlt := helloSizeLeft.toNat_lt
  have hleft : helloSizeLeft ≥ 4 := UInt16.le_iff_toNat_le.mpr (by simpa using hmin.trans h)
  apply Reads.check hleft
  apply (reads_readU8 lm.linkCode).bind
  apply (reads_readU8 0).bind
  apply (reads_word (by omega)).bind
  obtain ⟨hmod, hdiv⟩ := lm.size_eq
  apply Reads.check hmod
  rw [hdiv]
  exact (reads_neighbors lm.neighborInterfaceAddresses).bind_pure _

theorem reads_links (lms : List LinkMessage) {helloSizeLeft : UInt16}
    (h : (lms.map LinkMessage.size).sum = helloSizeLeft.toNat) :
    (Hello.deserializeLinks helloSizeLeft).Reads (lms.flatMap LinkMessage.serialize) lms := by
  induction lms generalizing helloSizeLeft with
  | nil =>
    have hzero : helloSizeLeft = 0 := UInt16.toNat_inj.mp h.symm
    rw [Hello.deserializeLinks, loop_stop (by simpa using hzero)]
    exact reads_pure []
  | cons lm lms ih =>
    rw [List.map_cons, List.sum_cons] at h
    have hmin : 4 ≤ lm.size := Nat.le_add_right 4 _
    have hne : helloSizeLeft ≠ 0 := by
      intro hzero
      rw [hzero] at h
      simp at h
      omega
    have hlt := helloSizeLeft.toNat_lt
    have hsize : (UInt16.ofNat lm.size).toNat = lm.size := UInt16.toNat_ofNat_of_lt' (show lm.size < 65536 by omega)
    have hle : UInt16.ofNat lm.size ≤ helloSizeLeft := UInt16.le_iff_toNat_le.mpr (by omega)
    have hrest : (lms.map LinkMessage.size).sum = (helloSizeLeft - UInt16.ofNat lm.size).toNat := by
      rw [UInt16.toNat_sub_of_le _ _ hle, hsize]
      omega
    rw [Hello.deserializeLinks, loop_step (by simpa using hne), List.flatMap_cons]
    exact (reads_link lm (by omega)).bind ((ih hrest).bind_pure _)

section
variable {messageSize : UInt32}

theorem reads_mid (m : Mid) (h : messageSize.toNat = m.getSerializedSize) :
    (Mid.deserialize messageSize).Reads m.serialize (m, m.getSerializedSize) := by
  rw [Mid.getSerializedSize, Nat.mul_comm] at h
  apply Reads.check (by rw [h]; exact Nat.mul_mod_right _ _)
  rw [h, Nat.mul_div_cancel_left _ (by decide)]
  exact (Reads.times m.interfaceAddresses fun a _ => reads_readAddress a).bind_pure
    fun as => (Mid.mk as, Mid.getSerializedSize ⟨as⟩)

theorem reads_hna (m : Hna) (h : messageSize.toNat = m.getSerializedSize) :
    (Hna.deserialize messageSize).Reads m.serialize (m, m.getSerializedSize) := by
  have hsize : m.getSerializedSize = IPV4_ADDRESS_SIZE * 2 * m.associations.length := by
    rw [Hna.getSerializedSize, Nat.mul_comm, Nat.mul_assoc IPV4_ADDRESS_SIZE]
  rw [← h]
  rw [hsize] at h
  apply Reads.check (by rw [h]; exact Nat.mul_mod_right _ _)
  rw [h, Nat.div_div_eq_div_mul, Nat.mul_div_cancel_left _ (by decide)]
  exact (Reads.times m.associations fun a _ => reads_association a).bind_pure _

theorem reads_tc (m : Tc) (h : messageSize.toNat = m.getSerializedSize) :
    (Tc.deserialize messageSize).Reads m.serialize (m, m.getSerializedSize) := by
  rw [← h]
  rw [Tc.getSerializedSize] at h
  have hmin : messageSize ≥ 4 := UInt32.le_iff_toNat_le.mpr (by rw [h]; exact Nat.le_add_right 4 _)
  have hrest : (messageSize - 4).toNat = IPV4_ADDRESS_SIZE * m.neighborAddresses.length := by
    rw [UInt32.toNat_sub_of_le _ _ hmin, h, Nat.mul_comm]
    exact Nat.add_sub_cancel_left 4 _
  have hansn := reads_readU16 m.ansn.toNat_lt
  rw [UInt16.ofNat_toNat] at hansn
  apply Reads.check hmin
  apply hansn.bind
  apply (reads_word (by decide)).bind
  apply Reads.check (by rw [hrest]; exact Nat.mul_mod_right _ _)
  rw [hrest, Nat.mul_div_cancel_left _ (by decide)]
  exact (Reads.times m.neighborAddresses fun a _ => reads_readAddress a).bind_pure _

theorem reads_hello (m : Hello) (h : messageSize.toNat = m.getSerializedSize) (hlt : messageSize.toNat < 65536) :
    (Hello.deserialize messageSize).Reads m.serialize (m, m.getSerializedSize) := by
  rw [← h]
  rw [Hello.getSerializedSize] at h
  have hmin : messageSize ≥ 4 := UInt32.le_iff_toNat_le.mpr (by rw [h]; exact Nat.le_add_right 4 _)
  have hleft : (m.linkMessages.map LinkMessage.size).sum = (messageSize.toUInt16 - 4).toNat := by
    have hcast : messageSize.toUInt16.toNat = messageSize.toNat := by
      rw [UInt32.toNat_toUInt16]
      exact Nat.mod_eq_of_lt hlt
    have hle : (4 : UInt16) ≤ messageSize.toUInt16 :=
      UInt16.le_iff_toNat_le.mpr (by rw [hcast, h]; exact Nat.le_add_right 4 _)
    rw [UInt16.toNat_sub_of_le _ _ hle, hcast, h]
    exact (Nat.add_sub_cancel_left 4 _).symm
  apply Reads.check hmin
  apply (reads_word (by decide)).bind
  apply (reads_readU8 m.hTime).bind
  apply (reads_readU8 m.willingness).bind
  exact (reads_links m.linkMessages hleft).bind_pure _

theorem reads_message (m : Message) (h : messageSize.toNat = m.getSerializedSize) (hlt : messageSize.toNat < 65536) :
    (Message.deserialize m.messageType messageSize).Reads m.serialize (m, m.getSerializedSize) := by
  cases m with
  | mid m => exact (reads_mid m h).bind_pure _
  | hello m => exact (reads_hello m h hlt).bind_pure _
  | tc m => exact (reads_tc m h).bind_pure _
  | hna m => exact (reads_hna m h).bind_pure _

end

def sized (h : MessageHeader) : MessageHeader := { h with m_messageSize := UInt16.ofNat h.getSerializedSize }

theorem reads_header (h : MessageHeader) (hsize : h.getSerializedSize < 65536) :
    deserialize.Reads h.serialize (h.sized, h.getSerializedSize) := by
  have hmin : 12 ≤ h.getSerializedSize := Nat.le_add_right 12 _
  have hcast : (UInt16.ofNat h.getSerializedSize).toUInt32.toNat = h.getSerializedSize := by
    rw [UInt16.toNat_toUInt32, UInt16.toNat_ofNat_of_lt' hsize]
  have hle : (12 : UInt32) ≤ (UInt16.ofNat h.getSerializedSize).toUInt32 := UInt32.le_iff_toNat_le.mpr (by rw [hcast]; exact hmin)
  have hbody : ((UInt16.ofNat h.getSerializedSize).toUInt32 - 12).toNat = h.m_message.getSerializedSize := by
    rw [UInt32.toNat_sub_of_le _ _ hle, hcast]
    exact Nat.add_sub_cancel_left 12 _
  have hseq := reads_readU16 h.m_messageSequenceNumber.toNat_lt
  rw [UInt16.ofNat_toNat] at hseq
  have htype : h.getMessageType.value < 256 ∧ 1 ≤ h.getMessageType.value ∧ h.getMessageType.value ≤ 4 ∧
      MessageType.ofValue h.getMessageType.value = h.getMessageType := by
    cases h.getMessageType <;> decide
  obtain ⟨hbyte, hfirst, hlast, hof⟩ := htype
  apply (reads_word hbyte).bind
  apply Reads.check ⟨hfirst, hlast⟩
  rw [hof]
  apply (reads_readU8 h.m_vTime).bind
  apply (reads_readU16 hsize).bind
  apply (reads_readAddress h.m_originatorAddress).bind
  apply (reads_readU8 h.m_timeToLive).bind
  apply (reads_readU8 h.m_hopCount).bind
  apply hseq.bind
  exact (reads_message h.m_message hbody (by rw [hbody]; exact Nat.lt_of_le_of_lt (Nat.le_add_left _ 12) hsize)).bind_pure _

end Ns3.MessageHeader
