import Ns3.Lib.Machine
import Ns3.Lib.OrdMap

/-!
# `NoOpComponentCarrierManager`

The manager keeps, for each UE, the SAPs of its RLC entities by logical
channel. A bearer on two RLCs has its second entity under `lcid + 99`. A failed
assertion and a fatal error have no result.
-/

namespace Ns3

open OrdMap

/-- `isGbr` is what `IsGbr ()` answers for the class. -/
structure EpsBearer where
  qci : Nat
  isGbr : Bool
  gbrDl : Nat := 0
  gbrUl : Nat := 0
  mbrDl : Nat := 0
  mbrUl : Nat := 0
  deriving DecidableEq

structure LcInfo where
  rnti : Nat
  lcId : Nat
  lcGroup : Nat
  qci : Nat
  isGbr : Bool
  mbrUl : Nat
  mbrDl : Nat
  gbrUl : Nat
  gbrDl : Nat
  deriving DecidableEq

structure LcsConfig (Sap : Type) where
  componentCarrierId : Nat
  lc : LcInfo
  msu : Sap
  deriving DecidableEq

structure NoOpComponentCarrierManager (Sap : Type) where
  noOfComponentCarriers : Nat
  ccmMacSapUser : Sap
  ueState : OrdMap Nat Nat := empty
  enabledComponentCarrier : OrdMap Nat Nat := empty
  ueAttached : OrdMap Nat (OrdMap Nat Sap) := empty
  rlcLcInstantiated : OrdMap Nat (OrdMap Nat LcInfo) := empty

namespace NoOpComponentCarrierManager

variable {Sap : Type}

/-- `lcid + 99` as a key of type `uint8_t`. -/
def secondKey (lcid : Nat) : Nat := (lcid + 99) % 256

def doAddUe (m : NoOpComponentCarrierManager Sap) (rnti state : Nat) : Option (NoOpComponentCarrierManager Sap) :=
  match m.ueState.find rnti with
  | some _ => some { m with ueState := m.ueState.insert rnti state }
  | none => do
    guard (m.enabledComponentCarrier.find rnti).isNone
    guard (m.ueAttached.find rnti).isNone
    guard (m.rlcLcInstantiated.find rnti).isNone
    return { m with
      ueState := m.ueState.insert rnti state
      enabledComponentCarrier := m.enabledComponentCarrier.insert rnti 1
      ueAttached := m.ueAttached.insert rnti empty
      rlcLcInstantiated := m.rlcLcInstantiated.insert rnti empty }

def doRemoveUe (m : NoOpComponentCarrierManager Sap) (rnti : Nat) : Option (NoOpComponentCarrierManager Sap) := do
  guard (m.ueState.find rnti).isSome
  guard (m.enabledComponentCarrier.find rnti).isSome
  guard (m.rlcLcInstantiated.find rnti).isSome
  guard (m.ueAttached.find rnti).isSome
  return { m with
    ueState := m.ueState.erase rnti
    enabledComponentCarrier := m.enabledComponentCarrier.erase rnti
    rlcLcInstantiated := m.rlcLcInstantiated.erase rnti
    ueAttached := m.ueAttached.erase rnti }

def lcInfo (bearer : EpsBearer) (rnti lcid lcGroup : Nat) : LcInfo :=
  ⟨rnti, lcid, lcGroup, bearer.qci, bearer.isGbr, bearer.mbrUl, bearer.mbrDl, bearer.gbrUl, bearer.gbrDl⟩

/-- The entry of carrier `ncc`: data flows only on the primary carrier. -/
def lcsConfig (m : NoOpComponentCarrierManager Sap) (bearer : EpsBearer) (rnti lcid lcGroup ncc : Nat) :
    LcsConfig Sap where
  componentCarrierId := ncc
  lc := if ncc = 0 then lcInfo bearer rnti lcid lcGroup
    else ⟨rnti, lcid, lcGroup, bearer.qci, false, 0, 0, 0, 0⟩
  msu := m.ccmMacSapUser

/-- The overload with two SAPs. A channel that exists already is only logged. -/
def doSetupDataRadioBearer (m : NoOpComponentCarrierManager Sap) (bearer : EpsBearer) (rnti lcid lcGroup : Nat)
    (msu msu2 : Sap) : Option (NoOpComponentCarrierManager Sap × List (LcsConfig Sap)) := do
  guard (m.enabledComponentCarrier.find rnti).isSome
  let m := { m with
    enabledComponentCarrier := m.enabledComponentCarrier.insert rnti (m.noOfComponentCarriers % 256) }
  let res := (List.range m.noOfComponentCarriers).map (m.lcsConfig bearer rnti lcid lcGroup)
  let saps ← m.ueAttached.find rnti
  let lcs ← m.rlcLcInstantiated.find rnti
  if (lcs.find lcid).isSome then return (m, res)
  else
    return ({ m with
      rlcLcInstantiated := m.rlcLcInstantiated.insert rnti (lcs.insertNew lcid (lcInfo bearer rnti lcid lcGroup))
      ueAttached := m.ueAttached.insert rnti ((saps.insertNew lcid msu).insertNew (secondKey lcid) msu2) }, res)

def doReleaseDataRadioBearer (m : NoOpComponentCarrierManager Sap) (rnti lcid : Nat) :
    Option (NoOpComponentCarrierManager Sap × List Nat) := do
  let carriers ← m.enabledComponentCarrier.find rnti
  let lcs ← m.rlcLcInstantiated.find rnti
  guard (lcs.find lcid).isSome
  let res := (List.range carriers).map (· % 256)
  let saps ← m.ueAttached.find rnti
  return ({ m with
    ueAttached := m.ueAttached.insert rnti (saps.erase lcid)
    rlcLcInstantiated := m.rlcLcInstantiated.insert rnti (lcs.erase lcid) }, res)

/-- The SAPs that `BwpManagerGnb::DoNotifyTxOpportunity` looks up. -/
def findRlcs (m : NoOpComponentCarrierManager Sap) (rnti lcid : Nat) : Option (Sap × Sap) := do
  let saps ← m.ueAttached.find rnti
  let first ← saps.find lcid
  let second ← saps.find (secondKey lcid)
  return (first, second)

/-! ## Calls -/

inductive Call (Sap : Type)
  | doAddUe (rnti state : Nat)
  | doSetupDataRadioBearer (bearer : EpsBearer) (rnti lcid lcGroup : Nat) (msu msu2 : Sap)
  | doReleaseDataRadioBearer (rnti lcid : Nat)
  | doRemoveUe (rnti : Nat)

inductive Answer (Sap : Type)
  | lcsConfigs (res : List (LcsConfig Sap))
  | carriers (res : List Nat)

def step (m : NoOpComponentCarrierManager Sap) : Call Sap → Option (NoOpComponentCarrierManager Sap × List (Answer Sap))
  | .doAddUe rnti state => (m.doAddUe rnti state).map fun m => (m, [])
  | .doSetupDataRadioBearer bearer rnti lcid lcGroup msu msu2 =>
    (m.doSetupDataRadioBearer bearer rnti lcid lcGroup msu msu2).map fun r => (r.1, [.lcsConfigs r.2])
  | .doReleaseDataRadioBearer rnti lcid => (m.doReleaseDataRadioBearer rnti lcid).map fun r => (r.1, [.carriers r.2])
  | .doRemoveUe rnti => (m.doRemoveUe rnti).map fun m => (m, [])

def machine (Sap : Type) : Machine (NoOpComponentCarrierManager Sap) (Call Sap) (Answer Sap) := ⟨step⟩

/-- The logical channels of data radio bearers, 3 to 34, leave room for `lcid + 99`. -/
def Issued (_ : NoOpComponentCarrierManager Sap) : Call Sap → Prop
  | .doSetupDataRadioBearer _ _ lcid _ _ _ => lcid < 99
  | _ => True

instance (m : NoOpComponentCarrierManager Sap) : ∀ call : Call Sap, Decidable (Issued m call)
  | .doSetupDataRadioBearer _ _ lcid _ _ _ => inferInstanceAs (Decidable (lcid < 99))
  | .doAddUe _ _ => .isTrue trivial
  | .doReleaseDataRadioBearer _ _ => .isTrue trivial
  | .doRemoveUe _ => .isTrue trivial

/-! ## Bearers -/

/-- The bearers that are set up for each UE that is attached. -/
abbrev Bearers (Sap : Type) := Nat → Option (Nat → Option (Sap × Sap))

/-- What a call is to do. A bearer that is set up already is not set up again. -/
def Bearers.after (bearers : Bearers Sap) : Call Sap → Bearers Sap
  | .doAddUe rnti _ => Function.update bearers rnti (some ((bearers rnti).getD fun _ => none))
  | .doSetupDataRadioBearer _ rnti lcid _ msu msu2 =>
    Function.update bearers rnti ((bearers rnti).map fun lcs =>
      Function.update lcs lcid (some ((lcs lcid).getD (msu, msu2))))
  | .doReleaseDataRadioBearer rnti lcid =>
    Function.update bearers rnti ((bearers rnti).map fun lcs => Function.update lcs lcid none)
  | .doRemoveUe rnti => Function.update bearers rnti none

def bearersAfter (calls : List (Call Sap)) : Bearers Sap := calls.foldl Bearers.after fun _ => none

/-- Each UE that is attached has the two SAPs of each bearer that is set up, and none of any other. -/
structure Routed (bearers : Bearers Sap) (m : NoOpComponentCarrierManager Sap) : Prop where
  attached : ∀ rnti, (m.ueAttached.find rnti).isSome = (bearers rnti).isSome
  first : ∀ rnti saps lcs, m.ueAttached.find rnti = some saps → bearers rnti = some lcs →
    ∀ lcid < 99, saps.find lcid = (lcs lcid).map Prod.fst
  second : ∀ rnti saps lcs, m.ueAttached.find rnti = some saps → bearers rnti = some lcs →
    ∀ lcid < 99, saps.find (secondKey lcid) = (lcs lcid).map Prod.snd

theorem secondKey_of_lt {lcid : Nat} (h : lcid < 99) : secondKey lcid = lcid + 99 := by
  rw [secondKey]
  omega

section
variable {bearers : Bearers Sap} {m m' : NoOpComponentCarrierManager Sap}

theorem Routed.findRlcs (h : Routed bearers m) {rnti lcid : Nat} (hlcid : lcid < 99)
    {lcs : Nat → Option (Sap × Sap)} (hlcs : bearers rnti = some lcs) : m.findRlcs rnti lcid = lcs lcid := by
  have hsome := h.attached rnti
  rw [hlcs] at hsome
  obtain ⟨saps, hsaps⟩ := Option.isSome_iff_exists.mp hsome
  have hfirst := h.first rnti saps lcs hsaps hlcs lcid hlcid
  have hsecond := h.second rnti saps lcs hsaps hlcs lcid hlcid
  cases hb : lcs lcid with
  | none => simp [NoOpComponentCarrierManager.findRlcs, hsaps, hfirst, hb]
  | some sap => simp [NoOpComponentCarrierManager.findRlcs, hsaps, hfirst, hsecond, hb]

/-! ## What the calls keep -/

/-- The maps of one UE. While `clean`, the second SAPs are those of the bearers. -/
structure Kept (clean : Prop) (lcs : Nat → Option (Sap × Sap)) (saps : OrdMap Nat Sap) (infos : OrdMap Nat LcInfo) :
    Prop where
  below : ∀ lcid, (lcs lcid).isSome → lcid < 99
  infos : ∀ lcid, (infos.find lcid).isSome = (lcs lcid).isSome
  first : ∀ lcid < 99, saps.find lcid = (lcs lcid).map Prod.fst
  left : ∀ lcid < 99, (lcs lcid).isSome → (saps.find (secondKey lcid)).isSome
  second : clean → ∀ lcid < 99, saps.find (secondKey lcid) = (lcs lcid).map Prod.snd

inductive UeSound (clean : Prop) : Option (Nat → Option (Sap × Sap)) → Option Nat → Option (OrdMap Nat Sap) →
    Option (OrdMap Nat LcInfo) → Prop
  | absent : UeSound clean none none none none
  | present {lcs state saps infos} : Kept clean lcs saps infos →
      UeSound clean (some lcs) (some state) (some saps) (some infos)

def Inv (clean : Prop) (bearers : Bearers Sap) (m : NoOpComponentCarrierManager Sap) : Prop :=
  ∀ rnti, UeSound clean (bearers rnti) (m.ueState.find rnti) (m.ueAttached.find rnti) (m.rlcLcInstantiated.find rnti)

section
variable {clean : Prop} {lcs : Nat → Option (Sap × Sap)} {saps : OrdMap Nat Sap} {infos : OrdMap Nat LcInfo}

theorem Kept.new : Kept clean (fun _ => none) (empty : OrdMap Nat Sap) empty where
  below := by simp
  infos := by simp
  first := by simp
  left := by simp
  second := by simp

theorem Kept.weaken {clean' : Prop} (h : Kept clean lcs saps infos) (hclean : clean' → clean) :
    Kept clean' lcs saps infos :=
  { h with second := fun hc => h.second (hclean hc) }

theorem Kept.setup (h : Kept clean lcs saps infos) {lcid : Nat} (hlcid : lcid < 99) (hnone : lcs lcid = none)
    (msu msu2 : Sap) (info : LcInfo) : Kept clean (Function.update lcs lcid (some (msu, msu2)))
      ((saps.insertNew lcid msu).insertNew (secondKey lcid) msu2) (infos.insertNew lcid info) where
  below k := by
    by_cases hk : k = lcid
    · intro _
      rwa [hk]
    · simpa [hk] using h.below k
  infos k := by
    rw [find_insertNew]
    by_cases hk : k = lcid
    · simp [hk]
    · simpa [hk] using h.infos k
  first k hk := by
    have hfirst := h.first lcid hlcid
    have hne : k ≠ secondKey lcid := by
      rw [secondKey_of_lt hlcid]
      omega
    rw [find_insertNew, if_neg hne, find_insertNew]
    by_cases hk' : k = lcid
    · simp [hk', hfirst, hnone]
    · simpa [hk'] using h.first k hk
  left k hk := by
    rw [find_insertNew]
    by_cases hk' : k = lcid
    · simp [hk']
    · have hne : secondKey k ≠ lcid := by
        rw [secondKey_of_lt hk]
        omega
      have hne' : secondKey k ≠ secondKey lcid := by
        rw [secondKey_of_lt hk, secondKey_of_lt hlcid]
        omega
      simpa [hk', hne', find_insertNew, hne] using h.left k hk
  second hclean k hk := by
    have hsecond := h.second hclean lcid hlcid
    have hne : ∀ k < 99, secondKey k ≠ lcid := by
      intro k hk
      rw [secondKey_of_lt hk]
      omega
    rw [find_insertNew, find_insertNew, find_insertNew, if_neg (hne k hk), if_neg (hne lcid hlcid), hsecond, hnone]
    by_cases hk' : k = lcid
    · simp [hk']
    · have hne' : secondKey k ≠ secondKey lcid := by
        rw [secondKey_of_lt hk, secondKey_of_lt hlcid]
        omega
      simpa [hk', hne'] using h.second hclean k hk

theorem Kept.release (h : Kept clean lcs saps infos) {lcid : Nat} (hlcid : lcid < 99) :
    Kept False (Function.update lcs lcid none) (saps.erase lcid) (infos.erase lcid) where
  below k := by
    by_cases hk : k = lcid
    · simp [hk]
    · simpa [hk] using h.below k
  infos k := by
    rw [find_erase]
    by_cases hk : k = lcid
    · simp [hk]
    · simpa [hk] using h.infos k
  first k hk := by
    rw [find_erase]
    by_cases hk' : k = lcid
    · simp [hk']
    · simpa [hk'] using h.first k hk
  left k hk := by
    have hne : secondKey k ≠ lcid := by
      rw [secondKey_of_lt hk]
      omega
    rw [find_erase, if_neg hne]
    by_cases hk' : k = lcid
    · simp [hk']
    · simpa [hk'] using h.left k hk
  second := False.elim

end

section
variable {clean : Prop} {rnti : Nat}

section
variable {lcs : Option (Nat → Option (Sap × Sap))} {state : Option Nat} {saps : Option (OrdMap Nat Sap)}
  {infos : Option (OrdMap Nat LcInfo)}

theorem UeSound.weaken {clean' : Prop} (h : UeSound clean lcs state saps infos) (hclean : clean' → clean) :
    UeSound clean' lcs state saps infos := by
  cases h with
  | absent => exact .absent
  | present hkept => exact .present (hkept.weaken hclean)

theorem UeSound.of_none (h : UeSound clean lcs none saps infos) : lcs = none ∧ saps = none ∧ infos = none := by
  cases h
  simp

theorem UeSound.of_some {old : Nat} (h : UeSound clean lcs (some old) saps infos) (new : Nat) :
    UeSound clean (some (lcs.getD fun _ => none)) (some new) saps infos := by
  cases h with
  | present hkept => exact .present hkept

theorem UeSound.of_saps {saps : OrdMap Nat Sap} (h : UeSound clean lcs state (some saps) infos) :
    ∃ old bound lc, state = some old ∧ lcs = some bound ∧ infos = some lc ∧ Kept clean bound saps lc := by
  cases h with
  | present hkept => exact ⟨_, _, _, rfl, rfl, rfl, hkept⟩

end

theorem Inv.update (h : Inv clean bearers m) {clean' : Prop} (hclean : clean' → clean)
    {lcs : Option (Nat → Option (Sap × Sap))}
    (hself : UeSound clean' lcs (m'.ueState.find rnti) (m'.ueAttached.find rnti) (m'.rlcLcInstantiated.find rnti))
    (hother : ∀ k ≠ rnti, m'.ueState.find k = m.ueState.find k ∧ m'.ueAttached.find k = m.ueAttached.find k ∧
      m'.rlcLcInstantiated.find k = m.rlcLcInstantiated.find k) : Inv clean' (Function.update bearers rnti lcs) m' := by
  intro k
  by_cases hk : k = rnti
  · rw [hk, Function.update_self]
    exact hself
  · obtain ⟨hstate, hattached, hrlc⟩ := hother k hk
    rw [Function.update_of_ne hk, hstate, hattached, hrlc]
    exact (h k).weaken hclean

theorem Inv.doAddUe (h : Inv clean bearers m) {state : Nat} (hstep : m.doAddUe rnti state = some m') :
    Inv clean (bearers.after (.doAddUe rnti state)) m' := by
  have hue := h rnti
  cases hstate : m.ueState.find rnti with
  | none =>
    rw [hstate] at hue
    obtain ⟨hb, hattached, hrlc⟩ := hue.of_none
    simp only [NoOpComponentCarrierManager.doAddUe, hstate, hattached, hrlc, Option.isNone_none, guard, if_true,
      Option.bind_eq_bind, Option.pure_def, Option.bind_some] at hstep
    split at hstep
    · cases hstep
      rw [Bearers.after, hb]
      apply h.update id
      · simpa using .present Kept.new
      · intro k hk
        simp [find_insert, hk]
    · simp at hstep
  | some old =>
    simp only [NoOpComponentCarrierManager.doAddUe, hstate, Option.some.injEq] at hstep
    subst hstep
    rw [hstate] at hue
    rw [Bearers.after]
    apply h.update id
    · simpa using hue.of_some state
    · intro k hk
      simp [find_insert, hk]

theorem Inv.doRemoveUe (h : Inv clean bearers m) (hstep : m.doRemoveUe rnti = some m') :
    Inv clean (bearers.after (.doRemoveUe rnti)) m' := by
  simp only [NoOpComponentCarrierManager.doRemoveUe, guard, Option.bind_eq_bind, Option.pure_def] at hstep
  split at hstep
  · split at hstep
    · split at hstep
      · split at hstep
        · cases hstep
          apply h.update id
          · simp only [find_erase, if_true]
            exact .absent
          · intro k hk
            simp [find_erase, hk]
        · simp at hstep
      · simp at hstep
    · simp at hstep
  · simp at hstep

theorem Inv.doSetupDataRadioBearer (h : Inv clean bearers m) {bearer : EpsBearer} {lcid lcGroup : Nat} {msu msu2 : Sap}
    {res : List (LcsConfig Sap)} (hlcid : lcid < 99)
    (hstep : m.doSetupDataRadioBearer bearer rnti lcid lcGroup msu msu2 = some (m', res)) :
    Inv clean (bearers.after (.doSetupDataRadioBearer bearer rnti lcid lcGroup msu msu2)) m' := by
  simp only [NoOpComponentCarrierManager.doSetupDataRadioBearer, guard, Option.bind_eq_bind, Option.pure_def] at hstep
  split at hstep
  · cases hsaps : m.ueAttached.find rnti with
    | none => simp [hsaps] at hstep
    | some saps =>
      have hue := h rnti
      rw [hsaps] at hue
      obtain ⟨old, lcs, infos, hstate, hb, hrlc, hkept⟩ := hue.of_saps
      simp only [Option.bind_some, hsaps, hrlc, hkept.infos] at hstep
      cases hlc : lcs lcid with
      | some sap =>
        -- the channel exists already
        simp only [hlc, Option.isSome_some, if_true, Option.some.injEq, Prod.mk.injEq] at hstep
        obtain ⟨rfl, -⟩ := hstep
        have hsame : Function.update lcs lcid (some sap) = lcs := by rw [← hlc, Function.update_eq_self]
        rw [Bearers.after, hb, Option.map_some, hlc, Option.getD_some, hsame]
        apply h.update id
        · rw [hstate, hsaps, hrlc]
          exact .present hkept
        · intro k _
          exact ⟨rfl, rfl, rfl⟩
      | none =>
        simp only [hlc, Option.isSome_none, Bool.false_eq_true, if_false, Option.some.injEq, Prod.mk.injEq] at hstep
        obtain ⟨rfl, -⟩ := hstep
        rw [Bearers.after, hb, Option.map_some, hlc, Option.getD_none]
        apply h.update id
        · simp only [hstate, find_insert_self]
          exact .present (hkept.setup hlcid hlc msu msu2 _)
        · intro k hk
          simp [find_insert, hk]
  · simp at hstep

theorem Inv.doReleaseDataRadioBearer (h : Inv clean bearers m) {lcid : Nat} {res : List Nat}
    (hstep : m.doReleaseDataRadioBearer rnti lcid = some (m', res)) :
    Inv False (bearers.after (.doReleaseDataRadioBearer rnti lcid)) m' ∧ lcid < 99 ∧
      ∃ saps, m'.ueAttached.find rnti = some saps ∧ (saps.find (secondKey lcid)).isSome := by
  simp only [NoOpComponentCarrierManager.doReleaseDataRadioBearer, guard, Option.bind_eq_bind, Option.pure_def] at hstep
  obtain ⟨carriers, -, hstep⟩ := Option.bind_eq_some_iff.mp hstep
  obtain ⟨infos, hrlc, hstep⟩ := Option.bind_eq_some_iff.mp hstep
  obtain ⟨_, hguard, hstep⟩ := Option.bind_eq_some_iff.mp hstep
  obtain ⟨saps, hsaps, hstep⟩ := Option.bind_eq_some_iff.mp hstep
  have hue := h rnti
  rw [hsaps] at hue
  obtain ⟨old, lcs, infos', hstate, hb, hrlc', hkept⟩ := hue.of_saps
  obtain rfl : infos = infos' := Option.some.inj (hrlc.symm.trans hrlc')
  cases hstep
  have hset : (lcs lcid).isSome := by
    rw [← hkept.infos]
    by_cases hlc : (infos.find lcid).isSome
    · exact hlc
    · simp [hlc] at hguard
  have hlcid := hkept.below lcid hset
  have hne : secondKey lcid ≠ lcid := by
    rw [secondKey_of_lt hlcid]
    omega
  refine ⟨?_, hlcid, saps.erase lcid, ?_, ?_⟩
  · rw [Bearers.after, hb, Option.map_some]
    apply h.update False.elim
    · simp only [hstate, find_insert_self]
      exact .present (hkept.release hlcid)
    · intro k hk
      simp [find_insert, hk]
  · rw [find_insert_self]
  · rw [find_erase, if_neg hne]
    exact hkept.left lcid hlcid hset

end

def Call.isRelease : Call Sap → Bool
  | .doReleaseDataRadioBearer _ _ => true
  | _ => false

def NoRelease (calls : List (Call Sap)) : Prop := ∀ call ∈ calls, call.isRelease = false

instance (calls : List (Call Sap)) : Decidable (NoRelease calls) :=
  inferInstanceAs (Decidable (∀ call ∈ calls, call.isRelease = false))

theorem bearersAfter_append (calls : List (Call Sap)) (call : Call Sap) :
    bearersAfter (calls ++ [call]) = (bearersAfter calls).after call := by
  simp [bearersAfter]

/-- The maps follow the bearers that the calls leave. -/
theorem Inv.step {calls : List (Call Sap)} (h : Inv (NoRelease calls) (bearersAfter calls) m) {call : Call Sap}
    {out : List (Answer Sap)} (hissued : Issued m call) (hstep : m.step call = some (m', out)) :
    Inv (NoRelease (calls ++ [call])) (bearersAfter (calls ++ [call])) m' := by
  have hclean : NoRelease (calls ++ [call]) → NoRelease calls := fun hno c hc => hno c (by simp [hc])
  have hw : Inv (NoRelease (calls ++ [call])) (bearersAfter calls) m := fun rnti => (h rnti).weaken hclean
  rw [bearersAfter_append]
  cases call with
  | doAddUe rnti state =>
    obtain ⟨m₁, hm, heq⟩ := Option.map_eq_some_iff.mp hstep
    cases heq
    exact hw.doAddUe hm
  | doSetupDataRadioBearer bearer rnti lcid lcGroup msu msu2 =>
    obtain ⟨r, hm, heq⟩ := Option.map_eq_some_iff.mp hstep
    cases heq
    exact hw.doSetupDataRadioBearer hissued hm
  | doReleaseDataRadioBearer rnti lcid =>
    obtain ⟨r, hm, heq⟩ := Option.map_eq_some_iff.mp hstep
    cases heq
    intro k
    refine ((hw.doReleaseDataRadioBearer hm).1 k).weaken fun hno => ?_
    exact absurd (hno (.doReleaseDataRadioBearer rnti lcid) (by simp)) nofun
  | doRemoveUe rnti =>
    obtain ⟨m₁, hm, heq⟩ := Option.map_eq_some_iff.mp hstep
    cases heq
    exact hw.doRemoveUe hm

theorem Inv.routed {clean : Prop} (h : Inv clean bearers m) (hclean : clean) : Routed bearers m := by
  refine ⟨fun rnti => ?_, fun rnti saps lcs hsaps hlcs => ?_, fun rnti saps lcs hsaps hlcs => ?_⟩
  · have hue := h rnti
    generalize bearers rnti = b, m.ueAttached.find rnti = saps, m.ueState.find rnti = state,
      m.rlcLcInstantiated.find rnti = infos at hue ⊢
    cases hue <;> rfl
  all_goals
    have hue := h rnti
    rw [hsaps] at hue
    obtain ⟨-, lcs', infos, -, hb, -, hkept⟩ := hue.of_saps
    obtain rfl : lcs = lcs' := Option.some.inj (hlcs.symm.trans hb)
  · exact hkept.first
  · exact hkept.second hclean

end

/-! ## Runs -/

def new (noOfComponentCarriers : Nat) (ccmMacSapUser : Sap) : NoOpComponentCarrierManager Sap :=
  { noOfComponentCarriers := noOfComponentCarriers, ccmMacSapUser := ccmMacSapUser }

theorem Inv.run {n : Nat} {sap : Sap} {tr : List (Call Sap × List (Answer Sap))} {m : NoOpComponentCarrierManager Sap}
    (h : Machine.Run (machine Sap) Issued (new n sap) tr m) :
    Inv (NoRelease (tr.map Prod.fst)) (bearersAfter (tr.map Prod.fst)) m := by
  refine Machine.Run.invariant (fun tr m => Inv (NoRelease (tr.map Prod.fst)) (bearersAfter (tr.map Prod.fst)) m)
    ?_ ?_ h
  · intro rnti
    exact .absent
  · intro tr m call m' out hinv hissued hstep
    rw [List.map_append]
    exact hinv.step hissued hstep

/-- **The second entity.** Both RLC entities of each bearer are found at every point of a run
just if no bearer is released in it. -/
theorem routed_iff {n : Nat} {sap : Sap} {tr : List (Call Sap × List (Answer Sap))}
    {m : NoOpComponentCarrierManager Sap} (h : Machine.Run (machine Sap) Issued (new n sap) tr m) :
    (∀ tr' m', tr' <+: tr → Machine.Run (machine Sap) Issued (new n sap) tr' m' →
      Routed (bearersAfter (tr'.map Prod.fst)) m') ↔ NoRelease (tr.map Prod.fst) := by
  refine ⟨fun hall call hcall => ?_, fun hno tr' m' hprefix hrun => ?_⟩
  · cases call with
    | doReleaseDataRadioBearer rnti lcid =>
      obtain ⟨⟨_, out⟩, hmem, rfl⟩ := List.mem_map.mp hcall
      obtain ⟨before, rest, rfl⟩ := List.append_of_mem hmem
      rw [List.append_cons] at h hall
      obtain ⟨m₁, h₁⟩ := h.before
      obtain ⟨m₀, h₀, hissued, hstep⟩ := h₁.last
      have hrouted := hall _ _ (List.prefix_append _ rest) h₁
      obtain ⟨r, hm, heq⟩ := Option.map_eq_some_iff.mp hstep
      cases heq
      obtain ⟨hinv, hlcid, saps, hsaps, hsecond⟩ := (Inv.run h₀).doReleaseDataRadioBearer hm
      have hue := hinv rnti
      rw [hsaps] at hue
      obtain ⟨-, lcs, -, -, hb, -, -⟩ := hue.of_saps
      rw [List.map_append, List.map_singleton, bearersAfter_append] at hrouted
      rw [hrouted.second rnti saps lcs hsaps hb lcid hlcid] at hsecond
      rw [Bearers.after, Function.update_self] at hb
      obtain ⟨lcs₀, -, rfl⟩ := Option.map_eq_some_iff.mp hb
      simp at hsecond
    | doAddUe rnti state => rfl
    | doSetupDataRadioBearer bearer rnti lcid lcGroup msu msu2 => rfl
    | doRemoveUe rnti => rfl
  · obtain ⟨rest, rfl⟩ := hprefix
    apply (Inv.run hrun).routed
    intro call hcall
    exact hno call (by simp [hcall])

/-- A UE joins, and two bearers are set up. -/
def twoBearers : List (Call Nat) :=
  [.doAddUe 1 0, .doSetupDataRadioBearer ⟨9, false, 0, 0, 0, 0⟩ 1 3 0 10 11,
    .doSetupDataRadioBearer ⟨9, false, 0, 0, 0, 0⟩ 1 4 0 20 21]

theorem routed_twoBearers : ∃ tr m, Machine.Run (machine Nat) Issued (new 1 0) tr m ∧ tr.map Prod.fst = twoBearers ∧
    Routed (bearersAfter twoBearers) m := by
  have hrun := Machine.run_of_isSome (machine Nat) Issued (new 1 0) twoBearers rfl
  exact ⟨_, _, hrun, rfl, (routed_iff hrun).mpr (by decide : NoRelease twoBearers) _ _ List.prefix_rfl hrun⟩

/-- Released and set up again, the bearer keeps its old second entity. -/
def againSetUp : List (Call Nat) :=
  [.doAddUe 1 0, .doSetupDataRadioBearer ⟨9, false, 0, 0, 0, 0⟩ 1 3 0 10 11, .doReleaseDataRadioBearer 1 3,
    .doSetupDataRadioBearer ⟨9, false, 0, 0, 0, 0⟩ 1 3 0 20 21]

theorem not_routed_againSetUp : ¬ ∀ (tr : List (Call Nat × List (Answer Nat))) m,
    Machine.Run (machine Nat) Issued (new 1 0) tr m → Routed (bearersAfter (tr.map Prod.fst)) m := by
  intro h
  have hrun := Machine.run_of_isSome (machine Nat) Issued (new 1 0) againSetUp rfl
  have hlcs : bearersAfter againSetUp 1 = some ((bearersAfter againSetUp 1).get rfl) := rfl
  have hrouted := (h _ _ hrun).findRlcs (by decide : 3 < 99) hlcs
  have hold : some (20, 11) = some (20, 21) := hrouted
  simp at hold

end NoOpComponentCarrierManager

end Ns3
