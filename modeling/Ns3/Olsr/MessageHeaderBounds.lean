import Ns3.Olsr.MessageHeaderSound

/-!
# How far `MessageHeader` reads

A link message of size 0 is read without end, and one that is larger than what
is left is read past the end of its message. All other sizes are checked.
-/

namespace Ns3.MessageHeader

open ByteReader

/-! ## The bytes a message is read from -/

def announcedType (bs : List UInt8) : Nat := ofNtoh (bs.take 1)

def announced (bs : List UInt8) : Nat := ofNtoh ((bs.drop 2).take 2)

/-- Exactly the announced size is read; or an assertion fails before that size is known, or before
more than that is read. -/
def Conforms (bs : List UInt8) : Prop :=
  match deserialize.run bs with
  | .done _ rest => rest.length + announced bs = bs.length
  | .failed rest => bs.length < rest.length + 4 ∨ bs.length ≤ rest.length + announced bs
  | .pastEnd => False

def linkSize (bs : List UInt8) : Nat := ofNtoh ((bs.drop 2).take 2)

/-- As far as no assertion fails, the link messages in the next `left` bytes have at least 4 bytes and
at most those that are left. -/
inductive LinksFit : Nat → List UInt8 → Prop
  | short {left : Nat} {bs : List UInt8} : left < 4 → LinksFit left bs
  | odd {left : Nat} {bs : List UInt8} : 4 ≤ bs.length → linkSize bs % 4 ≠ 0 → LinksFit left bs
  | link {left : Nat} {bs : List UInt8} : 4 ≤ linkSize bs → linkSize bs ≤ left → linkSize bs ≤ bs.length →
    LinksFit (left - linkSize bs) (bs.drop (linkSize bs)) → LinksFit left bs

/-- As far as no assertion fails, a body of `size` bytes is there, and its link messages fit. -/
def BodyFits (messageType : MessageType) (size : Nat) (bs : List UInt8) : Prop :=
  match messageType with
  | .MID_MESSAGE => size % 4 = 0 → size ≤ bs.length
  | .HELLO_MESSAGE => 4 ≤ size → 4 ≤ bs.length ∧ LinksFit (size - 4) (bs.drop 4)
  | .TC_MESSAGE => 4 ≤ size → 4 ≤ bs.length ∧ (size % 4 = 0 → size ≤ bs.length)
  | .HNA_MESSAGE => size % 8 = 0 → size ≤ bs.length

/-- There is a first byte; and if it is a message type, the header is there, is announced, and the body fits. -/
def Fits (bs : List UInt8) : Prop :=
  1 ≤ bs.length ∧ (1 ≤ announcedType bs ∧ announcedType bs ≤ 4 →
    12 ≤ bs.length ∧ 12 ≤ announced bs ∧ BodyFits (.ofValue (announcedType bs)) (announced bs - 12) (bs.drop 12))

/-! ## Link messages -/

theorem takes_readU8 : readU8.Takes 1 := (takes_word 1).bind_pure _

theorem takes_readU16 : readU16.Takes 2 := (takes_word 2).bind_pure _

theorem takes_readAddress : readAddress.Takes 4 := (takes_word 4).bind_pure _

theorem takes_association : Association.deserialize.Takes 8 :=
  takes_readAddress.bind fun _ => takes_readAddress.bind_pure _

theorem takes_neighbors : ∀ n : Nat, (LinkMessage.deserializeNeighbors n).Takes (n * 4)
  | 0 => by
    rw [LinkMessage.deserializeNeighbors, loop_stop (by simp), Nat.zero_mul]
    exact takes_pure []
  | n + 1 => by
    have hcount : ((n + 1 : Nat) : Int) - 1 = n := by simp
    have hrest := takes_neighbors n
    rw [LinkMessage.deserializeNeighbors, loop_step (by simp; omega), Nat.succ_mul, Nat.add_comm (n * 4), bind_assoc]
    apply takes_readAddress.bind
    intro address
    rw [pure_bind, hcount]
    exact hrest.bind_pure _

theorem neighbors_pastEnd : ∀ (bs : List UInt8) {n : Int}, n < 0 →
    (LinkMessage.deserializeNeighbors n).run bs = .pastEnd := by
  intro bs
  induction hlength : bs.length using Nat.strong_induction_on generalizing bs with
  | h length ih =>
    intro n hn
    rw [LinkMessage.deserializeNeighbors, loop_step (by simp; omega), bind_assoc, run_bind]
    by_cases hfour : 4 ≤ bs.length
    · obtain ⟨address, haddress⟩ := (takes_readAddress bs).1 hfour
      rw [haddress, andThen, pure_bind, run_bind]
      have hrest : (LinkMessage.deserializeNeighbors (n - 1)).run (bs.drop 4) = .pastEnd := by
        apply ih (bs.drop 4).length
        · rw [List.length_drop]
          omega
        · rfl
        · omega
      exact congrArg (andThen · _) hrest
    · rw [(takes_readAddress bs).2 (Nat.not_le.mp hfour)]
      rfl

theorem linksFit_iff {left : Nat} {bs : List UInt8} : LinksFit left bs ↔
    (4 ≤ left → 4 ≤ bs.length ∧ (linkSize bs % 4 = 0 → linkSize bs ≠ 0 ∧ linkSize bs ≤ bs.length ∧ linkSize bs ≤ left ∧
        LinksFit (left - linkSize bs) (bs.drop (linkSize bs)))) := by
  constructor
  · intro h hleft
    cases h with
    | short hshort => omega
    | odd hlength hodd => exact ⟨hlength, fun hmod => absurd hmod hodd⟩
    | link hmin hle hlength hrest => exact ⟨hmin.trans hlength, fun _ => ⟨by omega, hlength, hle, hrest⟩⟩
  · intro h
    by_cases hleft : 4 ≤ left
    · obtain ⟨hlength, hsize⟩ := h hleft
      by_cases hmod : linkSize bs % 4 = 0
      · obtain ⟨hne, hin, hle, hrest⟩ := hsize hmod
        exact .link (by omega) hle hin hrest
      · exact .odd hlength hmod
    · exact .short (Nat.not_le.mp hleft)

section
variable {β : Type} {helloSizeLeft : UInt16} {m : Nat} {bs : List UInt8} {P : Prop}

theorem stays_neighbors {g : List Ipv4Address → ByteReader β} {size : Nat} (hmod : size % 4 = 0) (hlength : 4 ≤ bs.length)
    (hm : 4 ≤ m) (hg : ∀ as, (g as).Stays (m - size) (bs.drop size) ↔ P) :
    (LinkMessage.deserializeNeighbors ((size - 4 : Int).tdiv IPV4_ADDRESS_SIZE) >>= g).Stays (m - 4) (bs.drop 4) ↔
      size ≠ 0 ∧ size ≤ bs.length ∧ size ≤ m ∧ P := by
  by_cases hzero : size = 0
  · have hnone : (LinkMessage.deserializeNeighbors ((size - 4 : Int).tdiv IPV4_ADDRESS_SIZE)).run (bs.drop 4) = .pastEnd := by
      apply neighbors_pastEnd
      rw [hzero]
      decide
    rw [Stays, run_bind, hnone]
    simp [andThen, hzero]
  · obtain ⟨k, rfl⟩ : ∃ k, size = 4 + k * 4 := ⟨size / 4 - 1, by omega⟩
    have hfour : ((4 + k * 4 : Nat) : Int) - 4 = k * IPV4_ADDRESS_SIZE := by
      simp only [IPV4_ADDRESS_SIZE]
      omega
    have hcount : (((4 + k * 4 : Nat) : Int) - 4).tdiv IPV4_ADDRESS_SIZE = k := by
      rw [hfour]
      exact Int.mul_tdiv_cancel _ (by decide)
    have hafter : ∀ as, (g as).Stays (m - 4 - k * 4) ((bs.drop 4).drop (k * 4)) ↔ P := by
      intro as
      rw [List.drop_drop, Nat.sub_sub]
      exact hg as
    rw [hcount, (takes_neighbors k).stays_const hafter, List.length_drop]
    constructor
    · rintro ⟨hk, hkm, hP⟩
      exact ⟨hzero, by omega, by omega, hP⟩
    · rintro ⟨-, hk, hkm, hP⟩
      exact ⟨by omega, by omega, hP⟩

theorem stays_link {f : LinkMessage × UInt16 → ByteReader β}
    (hf : ∀ lm, (f (lm, helloSizeLeft - UInt16.ofNat (linkSize bs))).Stays (m - linkSize bs) (bs.drop (linkSize bs)) ↔ P) :
    (LinkMessage.deserialize helloSizeLeft >>= f).Stays m bs ↔
      (4 ≤ helloSizeLeft.toNat → 4 ≤ bs.length ∧ 4 ≤ m ∧ (linkSize bs % 4 = 0 →
        linkSize bs ≠ 0 ∧ linkSize bs ≤ bs.length ∧ linkSize bs ≤ m ∧ P)) := by
  have hmod : (linkSize bs - 4 : Int).tmod IPV4_ADDRESS_SIZE = 0 ↔ linkSize bs % 4 = 0 := by
    rw [← Int.dvd_iff_tmod_eq_zero]
    simp only [IPV4_ADDRESS_SIZE]
    omega
  have hword : ∀ linkCode : UInt8, (word 2 >>= fun lmSize => check ((lmSize - 4 : Int).tmod IPV4_ADDRESS_SIZE = 0) >>= fun _ =>
      LinkMessage.deserializeNeighbors ((lmSize - 4 : Int).tdiv IPV4_ADDRESS_SIZE) >>= fun as =>
        f (⟨linkCode, as⟩, helloSizeLeft - UInt16.ofNat lmSize)).Stays (m - 1 - 1) ((bs.drop 1).drop 1) ↔
      2 ≤ bs.length - 1 - 1 ∧ 2 ≤ m - 1 - 1 ∧
        (linkSize bs % 4 = 0 → linkSize bs ≠ 0 ∧ linkSize bs ≤ bs.length ∧ linkSize bs ≤ m ∧ P) := by
    intro linkCode
    rw [stays_word, stays_check, List.length_drop, List.length_drop, List.drop_drop, List.drop_drop, Nat.sub_sub, Nat.sub_sub m]
    apply and_congr_right
    intro hlength
    apply and_congr_right
    intro hm
    change ((linkSize bs - 4 : Int).tmod IPV4_ADDRESS_SIZE = 0 → _) ↔ _
    rw [hmod]
    apply forall_congr'
    intro hzero
    exact stays_neighbors hzero (by omega) (by omega) fun as => hf ⟨linkCode, as⟩
  have hleft : helloSizeLeft ≥ 4 ↔ 4 ≤ helloSizeLeft.toNat := UInt16.le_iff_toNat_le
  rw [LinkMessage.deserialize]
  simp only [bind_assoc, pure_bind]
  rw [stays_check, hleft]
  apply forall_congr'
  intro _
  rw [takes_readU8.stays_const fun linkCode => takes_readU8.stays_const fun _ => hword linkCode, List.length_drop]
  constructor
  · rintro ⟨hone, hm, htwo, hm', hlength, hm'', hrest⟩
    exact ⟨by omega, by omega, hrest⟩
  · rintro ⟨hlength, hm, hrest⟩
    exact ⟨by omega, by omega, by omega, by omega, by omega, by omega, hrest⟩

theorem stays_links (bs : List UInt8) : ∀ helloSizeLeft : UInt16,
    (Hello.deserializeLinks helloSizeLeft).Stays helloSizeLeft.toNat bs ↔ LinksFit helloSizeLeft.toNat bs := by
  induction hlength : bs.length using Nat.strong_induction_on generalizing bs with
  | h length ih =>
    intro helloSizeLeft
    by_cases hzero : helloSizeLeft = 0
    · rw [Hello.deserializeLinks, loop_stop (by simpa using hzero), stays_pure, hzero]
      exact iff_of_true rfl (.short (by decide))
    · have hne : helloSizeLeft.toNat ≠ 0 := fun h => hzero (UInt16.toNat_inj.mp h)
      -- a size that fits is taken from what is left without wrapping around
      have hrest : linkSize bs ≠ 0 → linkSize bs ≤ bs.length → linkSize bs ≤ helloSizeLeft.toNat →
          ((Hello.deserializeLinks (helloSizeLeft - UInt16.ofNat (linkSize bs))).Stays (helloSizeLeft.toNat - linkSize bs)
            (bs.drop (linkSize bs)) ↔ LinksFit (helloSizeLeft.toNat - linkSize bs) (bs.drop (linkSize bs))) := by
        intro hsize hin hle
        have hcast : (UInt16.ofNat (linkSize bs)).toNat = linkSize bs :=
          UInt16.toNat_ofNat_of_lt' (Nat.lt_of_le_of_lt hle helloSizeLeft.toNat_lt)
        have hleft : (helloSizeLeft - UInt16.ofNat (linkSize bs)).toNat = helloSizeLeft.toNat - linkSize bs := by
          rw [UInt16.toNat_sub_of_le _ _ (UInt16.le_iff_toNat_le.mpr (by rw [hcast]; exact hle)), hcast]
        have hnext := ih (bs.drop (linkSize bs)).length (by rw [List.length_drop]; omega) _ rfl
          (helloSizeLeft - UInt16.ofNat (linkSize bs))
        rwa [hleft] at hnext
      rw [linksFit_iff, Hello.deserializeLinks, loop_step (by simpa using hzero)]
      refine Iff.trans (stays_link (P := (Hello.deserializeLinks (helloSizeLeft - UInt16.ofNat (linkSize bs))).Stays
        (helloSizeLeft.toNat - linkSize bs) (bs.drop (linkSize bs))) fun lm => stays_bind_pure (lm :: ·)) ?_
      constructor
      · intro h hleft
        obtain ⟨hlength, -, hlink⟩ := h hleft
        refine ⟨hlength, fun hmod => ?_⟩
        obtain ⟨hsize, hin, hle, hstays⟩ := hlink hmod
        exact ⟨hsize, hin, hle, (hrest hsize hin hle).mp hstays⟩
      · intro h hleft
        obtain ⟨hlength, hlink⟩ := h hleft
        refine ⟨hlength, hleft, fun hmod => ?_⟩
        obtain ⟨hsize, hin, hle, hfit⟩ := hlink hmod
        exact ⟨hsize, hin, hle, (hrest hsize hin hle).mpr hfit⟩

end

/-! ## Bodies -/

section
variable {messageSize : UInt32} {bs : List UInt8}

theorem stays_mid : (Mid.deserialize messageSize).Stays messageSize.toNat bs ↔
    BodyFits .MID_MESSAGE messageSize.toNat bs := by
  rw [Mid.deserialize, stays_check, BodyFits]
  apply forall_congr'
  intro hmod
  have hsize : messageSize.toNat / IPV4_ADDRESS_SIZE * 4 = messageSize.toNat := Nat.div_mul_cancel (Nat.dvd_of_mod_eq_zero hmod)
  rw [stays_bind_pure, (takes_readAddress.times _).stays, hsize]
  exact and_iff_left rfl

theorem stays_hna : (Hna.deserialize messageSize).Stays messageSize.toNat bs ↔
    BodyFits .HNA_MESSAGE messageSize.toNat bs := by
  rw [Hna.deserialize, stays_check, BodyFits]
  apply forall_congr'
  intro hmod
  have hsize : messageSize.toNat / IPV4_ADDRESS_SIZE / 2 * 8 = messageSize.toNat := by
    rw [Nat.div_div_eq_div_mul]
    exact Nat.div_mul_cancel (Nat.dvd_of_mod_eq_zero hmod)
  rw [stays_bind_pure, (takes_association.times _).stays, hsize]
  exact and_iff_left rfl

theorem four_le_iff : messageSize ≥ 4 ↔ 4 ≤ messageSize.toNat := UInt32.le_iff_toNat_le

theorem stays_tc : (Tc.deserialize messageSize).Stays messageSize.toNat bs ↔
    BodyFits .TC_MESSAGE messageSize.toNat bs := by
  rw [Tc.deserialize, stays_check, BodyFits, four_le_iff]
  apply forall_congr'
  intro hmin
  have hrest : (messageSize - 4).toNat = messageSize.toNat - 4 := UInt32.toNat_sub_of_le _ _ (four_le_iff.mpr hmin)
  rw [hrest]
  have hafter : ∀ ansn : UInt16, (check ((messageSize.toNat - 4) % IPV4_ADDRESS_SIZE = 0) >>= fun _ =>
      readAddress.times ((messageSize.toNat - 4) / IPV4_ADDRESS_SIZE) >>= fun as =>
        pure ((⟨ansn, as⟩ : Tc), messageSize.toNat)).Stays (messageSize.toNat - 2 - 2) ((bs.drop 2).drop 2) ↔
      (messageSize.toNat % 4 = 0 → messageSize.toNat ≤ (bs.length - 4) + 4) := by
    intro ansn
    have hmod : (messageSize.toNat - 4) % IPV4_ADDRESS_SIZE = 0 ↔ messageSize.toNat % 4 = 0 := by
      simp only [IPV4_ADDRESS_SIZE]
      omega
    rw [stays_check, hmod]
    apply forall_congr'
    intro hzero
    have hsize : (messageSize.toNat - 4) / IPV4_ADDRESS_SIZE * 4 = messageSize.toNat - 4 :=
      Nat.div_mul_cancel (Nat.dvd_of_mod_eq_zero (hmod.mpr hzero))
    rw [stays_bind_pure, (takes_readAddress.times _).stays, hsize, Nat.sub_sub, List.length_drop, List.length_drop]
    omega
  rw [takes_readU16.stays_const fun ansn => (takes_word 2).stays_const fun _ => hafter ansn, List.length_drop]
  omega

theorem stays_hello (h : messageSize.toNat < 65536) : (Hello.deserialize messageSize).Stays messageSize.toNat bs ↔
    BodyFits .HELLO_MESSAGE messageSize.toNat bs := by
  rw [Hello.deserialize, stays_check, BodyFits, four_le_iff]
  apply forall_congr'
  intro hmin
  have hcast : messageSize.toUInt16.toNat = messageSize.toNat := by
    rw [UInt32.toNat_toUInt16]
    exact Nat.mod_eq_of_lt h
  have hleft : (messageSize.toUInt16 - 4).toNat = messageSize.toNat - 4 := by
    rw [UInt16.toNat_sub_of_le _ _ (UInt16.le_iff_toNat_le.mpr (by rw [hcast]; exact hmin)), hcast]
    rfl
  have hafter : ∀ hTime willingness : UInt8, (Hello.deserializeLinks (messageSize.toUInt16 - 4) >>= fun lms =>
      pure ((⟨hTime, willingness, lms⟩ : Hello), messageSize.toNat)).Stays (messageSize.toNat - 2 - 1 - 1)
        (((bs.drop 2).drop 1).drop 1) ↔ LinksFit (messageSize.toNat - 4) (bs.drop 4) := by
    intro hTime willingness
    rw [stays_bind_pure, List.drop_drop, List.drop_drop, Nat.sub_sub, Nat.sub_sub, ← hleft]
    exact stays_links _ _
  rw [(takes_word 2).stays_const fun _ => takes_readU8.stays_const fun hTime =>
    takes_readU8.stays_const fun willingness => hafter hTime willingness]
  simp only [List.length_drop]
  constructor
  · rintro ⟨htwo, -, hthree, -, hfour, -, hfit⟩
    exact ⟨by omega, hfit⟩
  · rintro ⟨hfour, hfit⟩
    exact ⟨by omega, by omega, by omega, by omega, by omega, by omega, hfit⟩

theorem stays_message (messageType : MessageType) (h : messageSize.toNat < 65536) :
    (Message.deserialize messageType messageSize).Stays messageSize.toNat bs ↔ BodyFits messageType messageSize.toNat bs := by
  cases messageType with
  | MID_MESSAGE => exact (stays_bind_pure _).trans stays_mid
  | HELLO_MESSAGE => exact (stays_bind_pure _).trans (stays_hello h)
  | TC_MESSAGE => exact (stays_bind_pure _).trans stays_tc
  | HNA_MESSAGE => exact (stays_bind_pure _).trans stays_hna

end

/-! ## Headers -/

/-- What comes after the size. -/
def deserializeSized (messageType : MessageType) (vTime : UInt8) (messageSize : UInt16) : ByteReader (MessageHeader × Nat) := do
  let originatorAddress ← readAddress
  let timeToLive ← readU8
  let hopCount ← readU8
  let messageSequenceNumber ← readU16
  let r ← Message.deserialize messageType (messageSize.toUInt32 - 12)
  pure (⟨vTime, messageSize, originatorAddress, timeToLive, hopCount, messageSequenceNumber, r.1⟩, OLSR_MSG_HEADER_SIZE + r.2)

theorem deserializeAs_eq (messageType : MessageType) :
    deserializeAs messageType = readU8 >>= fun vTime => readU16 >>= deserializeSized messageType vTime := rfl

section
variable {bs : List UInt8}

theorem announced_lt (bs : List UInt8) : announced bs < 65536 := by
  have hlt := ofNtoh_lt ((bs.drop 2).take 2)
  have hlength : ((bs.drop 2).take 2).length ≤ 2 := by
    rw [List.length_take]
    exact Nat.min_le_left _ _
  exact Nat.lt_of_lt_of_le hlt (Nat.pow_le_pow_right (by decide) hlength)

theorem stays_sized (messageType : MessageType) (vTime : UInt8) (hmin : 4 ≤ announced bs) :
    (deserializeSized messageType vTime (UInt16.ofNat (announced bs))).Stays (announced bs - 4) (bs.drop 4) ↔
      12 ≤ bs.length ∧ 12 ≤ announced bs ∧ BodyFits messageType (announced bs - 12) (bs.drop 12) := by
  have hcast : (UInt16.ofNat (announced bs)).toUInt32.toNat = announced bs := by
    rw [UInt16.toNat_toUInt32, UInt16.toNat_ofNat_of_lt' (announced_lt bs)]
  have hbody : 12 ≤ announced bs →
      ((Message.deserialize messageType ((UInt16.ofNat (announced bs)).toUInt32 - 12)).Stays (announced bs - 12) (bs.drop 12) ↔
        BodyFits messageType (announced bs - 12) (bs.drop 12)) := by
    intro hle
    have hsize : ((UInt16.ofNat (announced bs)).toUInt32 - 12).toNat = announced bs - 12 := by
      rw [UInt32.toNat_sub_of_le _ _ (UInt32.le_iff_toNat_le.mpr (by rw [hcast]; exact hle)), hcast]
      rfl
    rw [← hsize]
    apply stays_message
    rw [hsize]
    exact Nat.lt_of_le_of_lt (Nat.sub_le _ _) (announced_lt bs)
  have hafter : ∀ originatorAddress timeToLive hopCount messageSequenceNumber,
      (Message.deserialize messageType ((UInt16.ofNat (announced bs)).toUInt32 - 12) >>= fun r =>
        pure (MessageHeader.mk vTime (UInt16.ofNat (announced bs)) originatorAddress timeToLive hopCount messageSequenceNumber r.1,
          OLSR_MSG_HEADER_SIZE + r.2)).Stays (announced bs - 4 - 4 - 1 - 1 - 2) (((((bs.drop 4).drop 4).drop 1).drop 1).drop 2) ↔
      (Message.deserialize messageType ((UInt16.ofNat (announced bs)).toUInt32 - 12)).Stays (announced bs - 12) (bs.drop 12) := by
    intro originatorAddress timeToLive hopCount messageSequenceNumber
    rw [stays_bind_pure]
    simp only [List.drop_drop, Nat.sub_sub]
  rw [deserializeSized, takes_readAddress.stays_const fun originatorAddress => takes_readU8.stays_const fun timeToLive =>
    takes_readU8.stays_const fun hopCount => takes_readU16.stays_const fun messageSequenceNumber =>
      hafter originatorAddress timeToLive hopCount messageSequenceNumber]
  simp only [List.length_drop]
  constructor
  · rintro ⟨h₁, h₂, h₃, h₄, h₅, h₆, h₇, h₈, hstays⟩
    exact ⟨by omega, by omega, (hbody (by omega)).mp hstays⟩
  · rintro ⟨hlength, hle, hfit⟩
    exact ⟨by omega, by omega, by omega, by omega, by omega, by omega, by omega, by omega, (hbody hle).mpr hfit⟩

theorem run_deserializeAs (messageType : MessageType) (hlength : 4 ≤ bs.length) : ∃ vTime,
    (deserializeAs messageType).run (bs.drop 1) =
      (deserializeSized messageType vTime (UInt16.ofNat (announced bs))).run (bs.drop 4) := by
  obtain ⟨vTime, hvTime⟩ := (takes_readU8 (bs.drop 1)).1 (by rw [List.length_drop]; omega)
  refine ⟨vTime, ?_⟩
  have hsize : readU16.run (bs.drop 2) = .done (UInt16.ofNat (announced bs)) (bs.drop 4) := by
    rw [readU16, run_bind, run_word (by rw [List.length_drop]; omega), List.drop_drop]
    rfl
  rw [deserializeAs_eq, run_bind, hvTime, List.drop_drop]
  dsimp only [andThen]
  rw [run_bind, hsize]
  rfl

theorem run_deserializeAs_pastEnd (messageType : MessageType) (hlength : bs.length < 4) :
    (deserializeAs messageType).run (bs.drop 1) = .pastEnd := by
  by_cases htwo : 2 ≤ bs.length
  · obtain ⟨vTime, hvTime⟩ := (takes_readU8 (bs.drop 1)).1 (by rw [List.length_drop]; omega)
    have hsize : readU16.run (bs.drop 2) = .pastEnd := (takes_readU16 (bs.drop 2)).2 (by rw [List.length_drop]; omega)
    rw [deserializeAs_eq, run_bind, hvTime, List.drop_drop]
    dsimp only [andThen]
    rw [run_bind, hsize]
    rfl
  · rw [deserializeAs_eq, run_bind, (takes_readU8 (bs.drop 1)).2 (by rw [List.length_drop]; omega)]
    rfl

theorem run_deserialize (hone : 1 ≤ bs.length) :
    deserialize.run bs = if 1 ≤ announcedType bs ∧ announcedType bs ≤ 4 then
      (deserializeAs (.ofValue (announcedType bs))).run (bs.drop 1) else .failed (bs.drop 1) := by
  rw [deserialize, run_bind, run_word hone]
  show andThen (if 1 ≤ announcedType bs ∧ announcedType bs ≤ 4 then _ else _) _ = _
  by_cases htype : 1 ≤ announcedType bs ∧ announcedType bs ≤ 4
  · rw [if_pos htype, if_pos htype]
    rfl
  · rw [if_neg htype, if_neg htype]
    rfl

theorem conforms_iff : Conforms bs ↔ Fits bs := by
  by_cases hone : 1 ≤ bs.length
  · rw [Conforms, Fits, and_iff_right hone, run_deserialize hone]
    by_cases htype : 1 ≤ announcedType bs ∧ announcedType bs ≤ 4
    · rw [if_pos htype, forall_prop_of_true htype]
      by_cases hlength : 4 ≤ bs.length
      · obtain ⟨vTime, hrun⟩ := run_deserializeAs (.ofValue (announcedType bs)) hlength
        have hleft := (deserializeSized (.ofValue (announcedType bs)) vTime (UInt16.ofNat (announced bs))).left_le (bs.drop 4)
        have hfour : (bs.drop 4).length = bs.length - 4 := List.length_drop
        rw [hrun]
        by_cases hmin : 4 ≤ announced bs
        · rw [← stays_sized _ vTime hmin, Stays]
          cases hsized : (deserializeSized (.ofValue (announcedType bs)) vTime (UInt16.ofNat (announced bs))).run (bs.drop 4) with
          | done h rest =>
            dsimp only
            omega
          | failed rest =>
            rw [hsized, Reading.left] at hleft
            dsimp only
            omega
          | pastEnd => rfl
        · apply iff_of_false
          · cases hsized : (deserializeSized (.ofValue (announcedType bs)) vTime (UInt16.ofNat (announced bs))).run (bs.drop 4) with
            | done h rest =>
              rw [hsized, Reading.left] at hleft
              dsimp only
              omega
            | failed rest =>
              rw [hsized, Reading.left] at hleft
              dsimp only
              omega
            | pastEnd => exact id
          · intro h
            omega
      · rw [run_deserializeAs_pastEnd _ (Nat.not_le.mp hlength)]
        apply iff_of_false id
        intro h
        omega
    · rw [if_neg htype, forall_prop_of_false htype, iff_true]
      dsimp only
      left
      rw [List.length_drop]
      omega
  · have hnone : deserialize.run bs = .pastEnd := by
      rw [deserialize, run_bind, (takes_word 1 bs).2 (Nat.not_le.mp hone)]
      rfl
    rw [Conforms, Fits, hnone]
    exact iff_of_false id fun h => hone h.1

/-- **The codec.** Every message below 2^16 bytes is read back with its size; and of any bytes, exactly
the announced size is read or an assertion fails before, if and only if the sizes in them fit. -/
theorem wire_iff (h : MessageHeader) (rest bs : List UInt8) : (h.getSerializedSize < 65536 →
      deserialize.run (h.serialize ++ rest) = .done (h.sized, h.getSerializedSize) rest) ∧ (Conforms bs ↔ Fits bs) :=
  ⟨fun hsize => reads_header h hsize rest, conforms_iff⟩

/-- A HELLO with one link message, to two neighbors. -/
def helloHeader : MessageHeader where
  m_vTime := 0x45
  m_messageSize := 28
  m_originatorAddress := 1
  m_timeToLive := 1
  m_hopCount := 0
  m_messageSequenceNumber := 7
  m_message := .hello ⟨5, 3, [⟨6, [2, 3]⟩]⟩

theorem helloHeader_read : deserialize.run (helloHeader.serialize ++ []) = .done (helloHeader, 28) [] :=
  (wire_iff helloHeader [] []).1 (by decide)

/-- A HELLO of 20 bytes whose link message announces a size of 0, and no bytes after it. -/
def zeroLink : List UInt8 := [1, 0, 0, 20, 0, 0, 0, 1, 1, 0, 0, 7, 0, 0, 5, 3, 6, 0, 0, 0]

/-- The addresses of the link message are read on past the end. -/
theorem zeroLink_overrun : ¬ Conforms zeroLink := by
  rw [conforms_iff]
  intro h
  obtain ⟨-, -, hbody⟩ := h.2 (by decide)
  obtain ⟨-, hlinks⟩ : 4 ≤ (zeroLink.drop 12).length ∧ LinksFit 4 [6, 0, 0, 0] := hbody (by decide)
  obtain ⟨-, hsize⟩ := linksFit_iff.mp hlinks (by decide)
  exact (hsize (by decide)).1 (by decide)

end

end Ns3.MessageHeader
