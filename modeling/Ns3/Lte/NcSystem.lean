import Ns3.Lte.NcTotal

/-!
# Two entities in network-coding mode

One entity sends, the other receives and reports. The channel may lose and
reorder: a PDU that was sent may arrive at any later time, at most once, or
never. The state keeps the history of both directions, so that what was
handed up can be compared with what was submitted.
-/

namespace Ns3

/-- The retransmissions sent for one report: `count` PDUs from position `first`
of what the sender has sent. -/
structure Answer where
  report : NcPdu
  first : Nat
  count : Nat

/-- `arrived` are positions in `sent`, in the order of arrival; `handed` are
packets with the group of the PDU whose arrival handed them up. -/
structure NcSystem where
  tx : LtePdcp
  rx : LtePdcp
  submitted : List Packet := []
  sent : List NcPdu := []
  arrived : List Nat := []
  reports : List NcPdu := []
  answers : List Answer := []
  handed : List (Nat × Packet) := []

namespace NcSystem

inductive Event where
  | submit (p : Packet) (rand : Nat → Nat → Nat)
  | arrive (i : Nat) (rand : Nat → Nat → Nat)
  | report (j : Nat) (rand : Nat → Nat → Nat)
  | expire (g : Nat)

def step (w : NcSystem) : Event → Option NcSystem
  | .submit p rand => do
    let (tx, o) ← w.tx.step (.transmit p rand)
    some { w with tx := tx, submitted := w.submitted ++ [p], sent := w.sent ++ downs o }
  | .arrive i rand =>
    if i ∈ w.arrived then none
    else do
      let q ← w.sent[i]?
      let (rx, o) ← w.rx.step (.receive q rand)
      some { w with rx := rx, arrived := w.arrived ++ [i], reports := w.reports ++ downs o,
                    handed := w.handed ++ (ups o).map (q.header.groupnum, ·) }
  | .report j rand => do
    let q ← w.reports[j]?
    let (tx, o) ← w.tx.step (.receive q rand)
    some { w with tx := tx, sent := w.sent ++ downs o,
                  answers := w.answers ++ [⟨q, w.sent.length, (downs o).length⟩] }
  | .expire g => do
    let (rx, o) ← w.rx.step (.ncTimer g)
    some { w with rx := rx, reports := w.reports ++ downs o }

def machine : Machine NcSystem Event Unit := ⟨fun w e => (w.step e).map (·, [])⟩

def init (txFlags rxFlags : Bool × Bool × Bool × Bool) : NcSystem where
  tx := LtePdcp.init true false txFlags
  rx := LtePdcp.init true false rxFlags

/-- The PDUs of group `g` at the positions `arrived` of `sent`. -/
def arrivals (sent : List NcPdu) (arrived : List Nat) (g : Nat) : List NcPdu :=
  (arrived.filterMap (sent[·]?)).filter fun q => q.header.groupnum = g

def arrivedOf (w : NcSystem) (g : Nat) : List NcPdu := arrivals w.sent w.arrived g

def handedOf (w : NcSystem) (g : Nat) : List Packet :=
  (w.handed.filter fun r => r.1 = g).map Prod.snd

def sdusOf (w : NcSystem) (g : Nat) : List Packet :=
  (w.submitted.drop (NcControl.originalBlockSize * g)).take NcControl.originalBlockSize

end NcSystem

end Ns3
