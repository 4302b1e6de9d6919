import Ns3.Olsr.TopologySet

/-!
# Freshness of what an originator advertises

Runs of TC messages of one originator. Their ANSN counts the changes of what it
advertises, in 16 bits; `processTc` compares these bits as they are. `InCycle`
says when that decides right, and that a receiver without a tuple of the
originator, which has nothing to compare with, gets no old message.
-/

namespace Ns3

open TopologySet List

/-- An address and the main addresses it advertises after each change. -/
structure TcOriginator where
  addr : Ipv4Address
  advertised : Nat → List Ipv4Address

structure TcArrival where
  change : Nat
  now : Int
  senderIface : Ipv4Address
  vTime : Int

/-- A node, and the newest change of the originator that it has processed. -/
structure TcReceiver where
  info : TopologyInfo
  newest : Option Nat

namespace TcOriginator

section
variable (o : TcOriginator)

def tc (a : TcArrival) : TcMessage := ⟨o.addr, a.vTime, UInt16.ofNat a.change, o.advertised a.change⟩

def receive (s : TcReceiver) (a : TcArrival) : TcReceiver where
  info := s.info.processTc a.now (o.tc a) a.senderIface
  newest := some (max (s.newest.getD a.change) a.change)

def machine : Machine TcReceiver TcArrival Empty := ⟨fun s a => some (o.receive s a, [])⟩

end

/-- Over a symmetric link, less than half of the numbers apart from the newest one. -/
structure Arrives (s : TcReceiver) (a : TcArrival) : Prop where
  link : (findSymLinkTuple s.info.linkSet a.senderIface a.now).isSome
  near : ∀ n ∈ s.newest, n < a.change + 32768 ∧ a.change < n + 32768

section
variable (o : TcOriginator)

def known (s : TcReceiver) : List (Ipv4Address × UInt16) := s.info.topologySet.advertisedBy o.addr

/-- No wrap lies between the newest change and the one that arrives, and nothing
old arrives where no tuple is there. -/
structure InCycle (s : TcReceiver) (a : TcArrival) : Prop extends Arrives s a where
  cycle : o.known s ≠ [] → ∀ n ∈ s.newest, a.change / 65536 = n / 65536
  order : o.known s = [] → ∀ n ∈ s.newest, n ≤ a.change ∨ o.advertised a.change = []

/-- All tuples are of the newest change, one for each destination. -/
structure Newest (s : TcReceiver) : Prop where
  number : ∀ e ∈ o.known s, ∀ n ∈ s.newest, e.2 = UInt16.ofNat n
  nodup : ((o.known s).map Prod.fst).Nodup

structure Freshly (s : TcReceiver) (a : TcArrival) (s' : TcReceiver) : Prop extends Newest o s' where
  older : (∃ n ∈ s.newest, a.change < n) → s'.info.topologySet = s.info.topologySet
  newer : (∀ n ∈ s.newest, n < a.change) →
    s'.info.topologySet.Advertises o.addr (UInt16.ofNat a.change) (o.advertised a.change)

/-- The tuples are those of the newest change. -/
def Current (s : TcReceiver) : Prop :=
  match s.newest with
  | none => o.known s = []
  | some n => s.info.topologySet.Advertises o.addr (UInt16.ofNat n) (o.advertised n)

end

end TcOriginator

/-! ## What an update does -/

namespace TopologySet

section
variable {s : TopologySet} (now : Int) (msg : TcMessage)

theorem update_older (h : ∃ e ∈ advertisedBy msg.originatorAddress s, msg.ansn < e.2) : s.update now msg = s := by
  obtain ⟨it, hit⟩ := Option.isSome_iff_exists.mp (findNewer_isSome.mpr h)
  rw [update, hit]

theorem update_eq (h : ∀ e ∈ advertisedBy msg.originatorAddress s, ¬ msg.ansn < e.2) : s.update now msg =
      msg.neighborAddresses.foldl (record now msg) (s.eraseOlderTopologyTuples msg.originatorAddress msg.ansn) := by
  rw [update]
  cases hfind : s.findNewerTopologyTuple msg.originatorAddress msg.ansn with
  | none => rfl
  | some it =>
    obtain ⟨e, he, hnew⟩ := findNewer_isSome.mp (Option.isSome_iff_exists.mpr ⟨it, hfind⟩)
    exact absurd hnew (h e he)

theorem update_newer (h : ∀ e ∈ advertisedBy msg.originatorAddress s, e.2 < msg.ansn) :
    (s.update now msg).Advertises msg.originatorAddress msg.ansn msg.neighborAddresses := by
  rw [update_eq now msg fun e he => UInt16.lt_asymm (h e he)]
  have hnone : advertisedBy msg.originatorAddress (s.eraseOlderTopologyTuples msg.originatorAddress msg.ansn) = [] := by
    rw [advertisedBy_eraseOlder, filter_eq_nil_iff]
    intro e he
    simpa using h e he
  have hstart : (s.eraseOlderTopologyTuples msg.originatorAddress msg.ansn).Advertises msg.originatorAddress msg.ansn [] := by
    refine ⟨?_, ?_, ?_⟩ <;> simp [hnone]
  exact hstart.foldl_record now msg.neighborAddresses

theorem update_same {dests : List Ipv4Address} (h : s.Advertises msg.originatorAddress msg.ansn dests)
    (hsame : ∀ addr ∈ msg.neighborAddresses, addr ∈ dests) :
    (s.update now msg).Advertises msg.originatorAddress msg.ansn dests := by
  have hnot : ∀ e ∈ advertisedBy msg.originatorAddress s, ¬ e.2 < msg.ansn := fun e he => by
    rw [h.number e he]
    exact UInt16.lt_irrefl _
  rw [update_eq now msg fun e he => by rw [h.number e he]; exact UInt16.lt_irrefl _]
  have hkept : advertisedBy msg.originatorAddress (s.eraseOlderTopologyTuples msg.originatorAddress msg.ansn) =
      advertisedBy msg.originatorAddress s := by
    rw [advertisedBy_eraseOlder, filter_eq_self]
    intro e he
    simpa using hnot e he
  have hstart : (s.eraseOlderTopologyTuples msg.originatorAddress msg.ansn).Advertises msg.originatorAddress msg.ansn dests := by
    refine ⟨?_, ?_, ?_⟩ <;> rw [hkept]
    · exact h.number
    · exact h.nodup
    · exact h.dests
  have hend := hstart.foldl_record now msg.neighborAddresses
  refine ⟨hend.number, hend.nodup, fun addr => (hend.dests addr).trans ?_⟩
  rw [mem_append]
  exact ⟨fun hmem => hmem.elim id (hsame addr), .inl⟩

theorem update_nothing (h : advertisedBy msg.originatorAddress s = []) (hnil : msg.neighborAddresses = []) :
    s.update now msg = s := by
  rw [update_eq now msg (by simp [h]), hnil, foldl_nil, eraseOlderTopologyTuples, filter_eq_self]
  intro it hit
  have hnot : it.lastAddr ≠ msg.originatorAddress := by
    intro hlast
    have : (it.destAddr, it.sequenceNumber) ∈ advertisedBy msg.originatorAddress s :=
      mem_advertisedBy.mpr ⟨it, hit, hlast, rfl, rfl⟩
    rw [h] at this
    cases this
  simp [hnot]

end

end TopologySet

/-! ## One message -/

namespace TcOriginator

theorem ofNat_lt_iff (n k : Nat) : UInt16.ofNat n < UInt16.ofNat k ↔ n % 65536 < k % 65536 := by
  rw [UInt16.lt_iff_toNat_lt, UInt16.toNat_ofNat', UInt16.toNat_ofNat']

theorem ofNat_ne (n k : Nat) (h : n % 65536 ≠ k % 65536) : UInt16.ofNat n ≠ UInt16.ofNat k := by
  intro heq
  have := congrArg UInt16.toNat heq
  rw [UInt16.toNat_ofNat', UInt16.toNat_ofNat'] at this
  exact h this

section
variable {o : TcOriginator} {s : TcReceiver} {a : TcArrival}

theorem receive_topologySet (h : Arrives s a) :
    (o.receive s a).info.topologySet = s.info.topologySet.update a.now (o.tc a) := by
  obtain ⟨it, hit⟩ := Option.isSome_iff_exists.mp h.link
  rw [receive, TopologyInfo.processTc, hit]

theorem newest_receive (hnew : ∀ n ∈ s.newest, n ≤ a.change) : (o.receive s a).newest = some a.change := by
  rw [receive]
  cases hnewest : s.newest with
  | none => simp
  | some n =>
    have := hnew n hnewest
    simp only [Option.getD_some, Option.some.injEq]
    omega

theorem newest_receive_old {n : Nat} (hnewest : s.newest = some n) (hold : a.change ≤ n) :
    (o.receive s a).newest = some n := by
  rw [receive, hnewest]
  simp only [Option.getD_some, Option.some.injEq]
  omega

theorem Current.number (h : o.Current s) {n : Nat} (hnewest : s.newest = some n) : ∀ e ∈ o.known s, e.2 = UInt16.ofNat n := by
  rw [Current, hnewest] at h
  exact h.number

theorem Current.newest (h : o.Current s) : o.Newest s := by
  unfold Current at h
  cases hnewest : s.newest with
  | none =>
    rw [hnewest] at h
    change o.known s = [] at h
    exact ⟨by simp [h], by simp [h]⟩
  | some n =>
    rw [hnewest] at h
    refine ⟨fun e he m hm => ?_, h.nodup⟩
    cases hnewest.symm.trans hm
    exact h.number e he

theorem receive_newer (harr : Arrives s a) (hnew : ∀ n ∈ s.newest, n ≤ a.change)
    (hless : ∀ e ∈ o.known s, e.2 < UInt16.ofNat a.change) : o.Current (o.receive s a) ∧
      (o.receive s a).info.topologySet.Advertises o.addr (UInt16.ofNat a.change) (o.advertised a.change) := by
  have hadv : (o.receive s a).info.topologySet.Advertises o.addr (UInt16.ofNat a.change) (o.advertised a.change) := by
    rw [receive_topologySet harr]
    exact update_newer a.now (o.tc a) hless
  refine ⟨?_, hadv⟩
  rw [Current, newest_receive hnew]
  exact hadv

theorem Current.receive_old (h : o.Current s) {n : Nat} (hnewest : s.newest = some n) (hold : a.change ≤ n)
    (hsame : (o.receive s a).info.topologySet = s.info.topologySet) : o.Current (o.receive s a) := by
  rw [Current, newest_receive_old hnewest hold]
  rw [Current, hnewest] at h
  change Advertises (o.receive s a).info.topologySet o.addr (UInt16.ofNat n) (o.advertised n)
  rw [hsame]
  exact h

theorem receive_inCycle (h : o.Current s) (hin : o.InCycle s a) :
    o.Current (o.receive s a) ∧ o.Freshly s a (o.receive s a) := by
  cases hnewest : s.newest with
  | none =>
    have hnone : o.known s = [] := by
      rw [Current, hnewest] at h
      exact h
    have hless : ∀ e ∈ o.known s, e.2 < UInt16.ofNat a.change := by simp [hnone]
    obtain ⟨hcur, hadv⟩ := receive_newer hin.toArrives (by simp [hnewest]) hless
    refine ⟨hcur, hcur.newest, fun hold => ?_, fun _ => hadv⟩
    obtain ⟨n, hn, -⟩ := hold
    rw [hnewest] at hn
    cases hn
  | some n =>
    obtain ⟨hnear, hnear'⟩ := hin.near n hnewest
    have hnumber := h.number hnewest
    have holder : ∀ {P : Prop}, (a.change < n → P) → (∃ m ∈ s.newest, a.change < m) → P := by
      intro P hP hold
      obtain ⟨m, hm, hlt⟩ := hold
      cases hnewest.symm.trans hm
      exact hP hlt
    rcases Nat.lt_trichotomy a.change n with hlt | heq | hgt
    · -- an older one: a tuple with a greater number is there, or nothing is advertised
      have hsame : (o.receive s a).info.topologySet = s.info.topologySet := by
        rw [receive_topologySet hin.toArrives]
        by_cases hnone : o.known s = []
        · rcases hin.order hnone n hnewest with hle | hnil
          · omega
          · exact update_nothing a.now (o.tc a) hnone hnil
        · have hcycle := hin.cycle hnone n hnewest
          obtain ⟨e, he⟩ := exists_mem_of_ne_nil _ hnone
          refine update_older a.now (o.tc a) ⟨e, he, ?_⟩
          rw [hnumber e he]
          exact (ofNat_lt_iff _ _).mpr (by omega)
      have hcur := h.receive_old hnewest (by omega) hsame
      refine ⟨hcur, hcur.newest, fun _ => hsame, fun hnew => ?_⟩
      have := hnew n hnewest
      omega
    · -- the newest one again
      rw [Current, hnewest] at h
      have hcur : o.Current (o.receive s a) := by
        rw [Current, newest_receive_old hnewest heq.le]
        change Advertises (o.receive s a).info.topologySet o.addr (UInt16.ofNat n) (o.advertised n)
        change s.info.topologySet.Advertises o.addr (UInt16.ofNat n) (o.advertised n) at h
        rw [receive_topologySet hin.toArrives]
        subst heq
        exact update_same a.now (o.tc a) h fun addr haddr => haddr
      refine ⟨hcur, hcur.newest, holder fun hlt => by omega, fun hnew => ?_⟩
      have := hnew n hnewest
      omega
    · have hnew : ∀ m ∈ s.newest, m ≤ a.change := by
        intro m hm
        cases hnewest.symm.trans hm
        omega
      have hless : ∀ e ∈ o.known s, e.2 < UInt16.ofNat a.change := by
        intro e he
        have hcycle := hin.cycle (ne_nil_of_mem he) n hnewest
        rw [hnumber e he]
        exact (ofNat_lt_iff _ _).mpr (by omega)
      obtain ⟨hcur, hadv⟩ := receive_newer hin.toArrives hnew hless
      exact ⟨hcur, hcur.newest, holder fun hlt => by omega, fun _ => hadv⟩

theorem inCycle_of_freshly (h : o.Current s) (harr : Arrives s a) (hfresh : o.Freshly s a (o.receive s a)) :
    o.InCycle s a := by
  refine ⟨harr, fun hsome n hnewest => ?_, fun hnone n hnewest => ?_⟩
  · by_contra hcycle
    obtain ⟨hnear, hnear'⟩ := harr.near n hnewest
    have hnumber := h.number hnewest
    obtain ⟨e, he⟩ := exists_mem_of_ne_nil _ hsome
    rcases Nat.lt_trichotomy a.change n with hlt | heq | hgt
    · -- an old message counts as newer and replaces what is known
      have hless : ∀ e ∈ o.known s, e.2 < UInt16.ofNat a.change := by
        intro e he
        rw [hnumber e he]
        exact (ofNat_lt_iff _ _).mpr (by omega)
      have hadv := update_newer a.now (o.tc a) hless
      have hsame := hfresh.older ⟨n, hnewest, hlt⟩
      rw [receive_topologySet harr] at hsame
      rw [hsame] at hadv
      exact ofNat_ne n a.change (by omega) ((hnumber e he).symm.trans (hadv.number e he))
    · exact hcycle (by rw [heq])
    · -- a new message counts as older and changes nothing
      have hgone : s.info.topologySet.update a.now (o.tc a) = s.info.topologySet := by
        refine update_older a.now (o.tc a) ⟨e, he, ?_⟩
        rw [hnumber e he]
        exact (ofNat_lt_iff _ _).mpr (by omega)
      have hnew : ∀ m ∈ s.newest, m ≤ a.change := by
        intro m hm
        cases hnewest.symm.trans hm
        omega
      have hmem : e ∈ o.known (o.receive s a) := by
        rw [known, receive_topologySet harr, hgone]
        exact he
      have hnumber' := hfresh.number e hmem a.change (newest_receive hnew)
      exact ofNat_ne n a.change (by omega) ((hnumber e he).symm.trans hnumber')
  · -- an old message is taken where nothing is known
    by_contra hbad
    rw [not_or, Nat.not_le] at hbad
    obtain ⟨hlt, hsome⟩ := hbad
    obtain ⟨hnear, hnear'⟩ := harr.near n hnewest
    have hless : ∀ e ∈ o.known s, e.2 < UInt16.ofNat a.change := by simp [hnone]
    have hadv := update_newer a.now (o.tc a) hless
    obtain ⟨addr, haddr⟩ := exists_mem_of_ne_nil _ hsome
    obtain ⟨e, he, -⟩ := List.mem_map.mp ((hadv.dests addr).mpr haddr)
    have hmem : e ∈ o.known (o.receive s a) := by
      rw [known, receive_topologySet harr]
      exact he
    have hnumber := hfresh.number e hmem n (newest_receive_old hnewest (by omega))
    exact ofNat_ne a.change n (by omega) ((hadv.number e he).symm.trans hnumber)

end

/-! ## Runs -/

/-- A node that knows nothing of the originator. -/
structure StartsWithout (o : TcOriginator) (s : TcReceiver) : Prop where
  newest : s.newest = none
  known : o.known s = []

/-- The tuples are those of the newest TC, in whatever order they came. -/
theorem current_of_run {o : TcOriginator} {s₀ s : TcReceiver} {tr : List (TcArrival × List Empty)}
    (hstart : o.StartsWithout s₀) (h : o.machine.Run o.InCycle s₀ tr s) : o.Current s := by
  refine h.invariant (fun _ s => o.Current s) ?_ ?_
  · rw [Current, hstart.newest]
    exact hstart.known
  · intro _ s a s' _ hcur hin hs
    cases hs
    exact (receive_inCycle hcur hin).1

/-- **Messages in the cycle keep the topology fresh**, and no others do. -/
theorem topology_fresh (o : TcOriginator) {s₀ s : TcReceiver} {tr : List (TcArrival × List Empty)}
    (hstart : o.StartsWithout s₀) (h : o.machine.Run o.InCycle s₀ tr s) :
    o.Newest s ∧ ∀ a, Arrives s a → (o.Freshly s a (o.receive s a) ↔ o.InCycle s a) := by
  have hcur := current_of_run hstart h
  exact ⟨hcur.newest, fun a harr => ⟨inCycle_of_freshly hcur harr, fun hin => (receive_inCycle hcur hin).2⟩⟩

def listener : TcReceiver := ⟨⟨[⟨⟨1, 2, 100⟩, 100⟩], []⟩, none⟩

/-- It has one relay selector, another one after each change. -/
def wanderer : TcOriginator := ⟨5, fun k => [Fin.ofNat _ k]⟩

theorem listener_arrives (k : Nat) : Arrives listener ⟨k, 0, 2, 15⟩ :=
  ⟨rfl, fun _ hn => nomatch hn⟩

def busyListener : TcReceiver := ⟨⟨[⟨⟨1, 2, 100⟩, 100⟩], [⟨⟨7, 6⟩, 65535, 100⟩]⟩, none⟩

/-- A newer change, one that was overtaken, and the newest one again. -/
def beforeTheWrap : List TcArrival := [⟨65530, 0, 2, 15⟩, ⟨65535, 1, 2, 15⟩, ⟨65533, 2, 2, 15⟩, ⟨65535, 3, 2, 15⟩]

instance (s : TcReceiver) (a : TcArrival) : Decidable (Arrives s a) :=
  decidable_of_iff (_ ∧ _) ⟨fun h => ⟨h.1, h.2⟩, fun h => ⟨h.link, h.near⟩⟩

instance (o : TcOriginator) (s : TcReceiver) (a : TcArrival) : Decidable (o.InCycle s a) :=
  decidable_of_iff (_ ∧ _ ∧ _) ⟨fun h => ⟨h.1, h.2.1, h.2.2⟩, fun h => ⟨h.toArrives, h.cycle, h.order⟩⟩

theorem beforeTheWrap_isSome : (wanderer.machine.exec wanderer.InCycle busyListener beforeTheWrap).isSome := by
  decide +kernel

theorem topology_fresh_listener : ∃ tr s, wanderer.StartsWithout busyListener ∧
    wanderer.machine.Run wanderer.InCycle busyListener tr s ∧ wanderer.known s = [(65535, 65535)] ∧ wanderer.Newest s ∧
      wanderer.Freshly s ⟨65534, 4, 2, 15⟩ (wanderer.receive s ⟨65534, 4, 2, 15⟩) ∧
      ¬ wanderer.Freshly s ⟨65536, 4, 2, 15⟩ (wanderer.receive s ⟨65536, 4, 2, 15⟩) := by
  have hstart : wanderer.StartsWithout busyListener := ⟨rfl, rfl⟩
  have hrun := Machine.run_of_isSome wanderer.machine wanderer.InCycle _ _ beforeTheWrap_isSome
  obtain ⟨hnewest, hfresh⟩ := topology_fresh wanderer hstart hrun
  refine ⟨_, _, hstart, hrun, by decide +kernel, hnewest, (hfresh _ ?_).mpr ?_, fun h => ?_⟩
  · decide +kernel
  · decide +kernel
  · -- the wrap lies between the newest change and the next one
    exact absurd ((hfresh ⟨65536, 4, 2, 15⟩ (by decide +kernel)).mp h) (by decide +kernel)

/-- Change 65536 has number 0, which counts as older than the 65535 of the change before it. -/
theorem wrapped_discarded : ∃ s₀ tr s a, wanderer.StartsWithout s₀ ∧
    wanderer.machine.Run (fun s a => Arrives s a) s₀ tr s ∧ Arrives s a ∧ ¬ wanderer.Freshly s a (wanderer.receive s a) := by
  refine ⟨listener, [(⟨65535, 0, 2, 15⟩, [])], wanderer.receive listener ⟨65535, 0, 2, 15⟩, ⟨65536, 1, 2, 15⟩, ⟨rfl, rfl⟩,
    .snoc .nil (listener_arrives 65535) rfl, ⟨rfl, fun n hn => ?_⟩, fun h => ?_⟩
  · obtain rfl : 65535 = n := Option.some.inj hn
    decide
  · have hnew := h.newer fun n hn => by
      obtain rfl : 65535 = n := Option.some.inj hn
      decide
    exact absurd (hnew.number (65535, 65535) (by decide)) (by decide)

end TcOriginator

end Ns3
