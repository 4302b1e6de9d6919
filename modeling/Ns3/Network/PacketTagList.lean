import Ns3.Lib.Machine
import Ns3.Lib.SharedChain
import Ns3.Rlc.RlcHeader

/-!
# `PacketTagList`

Packet tags are kept as linked `TagData` that several lists share; a list that
changes a tag behind the first branch copies what comes before it. Memory holds
all lists and all nodes. A dereferenced null pointer, a pointer to a freed node
and a failed assertion have no successor; nor has a loop that runs longer than
there are nodes. Counts are natural numbers. A node is freed when `RemoveAll`
leaves it, which the source does one round later to read its `next` in between.

`TagLists` is what the lists are for: each is a list of its own of types and
values.
-/

namespace Ns3

abbrev TypeId := Nat

structure Tag where
  tid : TypeId
  data : Bytes
  deriving DecidableEq

inductive TagEvent where
  | create
  | copy (o : Nat)
  | assign (list o : Nat)
  | destroy (list : Nat)
  | add (list : Nat) (tag : Tag)
  | remove (list : Nat) (tid : TypeId)
  | replace (list : Nat) (tag : Tag)
  | peek (list : Nat) (tid : TypeId)
  | removeAll (list : Nat)

inductive TagAnswer where
  | notFound
  | found
  | value (data : Bytes)
  deriving DecidableEq

/-- `struct TagData`: a pointer, a count, and the tag. -/
abbrev PacketTagLists := Chains Tag

namespace PacketTagLists

open Chains

/-- The assertion of `CreateTagData`. -/
def sizeOk (tag : Tag) : Bool := tag.data.length < 4294967295

/-- The first loop of `COWTraverse`: the link and the node it stops at, and whether
that is the tag and not a merge. -/
def search (m : PacketTagLists) (tid : TypeId) : Nat → Link → Option Nat → Option (Link × Option Nat × Bool)
  | 0, _, _ => none
  | _ + 1, prevNext, none => some (prevNext, none, false)
  | n + 1, prevNext, some cur =>
    (m.node cur).bind fun d =>
      if 1 < d.count then some (prevNext, some cur, false)
      else if d.val.tid = tid then some (prevNext, some cur, true)
      else search m tid n (.next cur) d.next

/-- From a node on, the first tag of a type. -/
def find (m : PacketTagLists) (tid : TypeId) : Nat → Option Nat → Option (Option Tag)
  | 0, _ => none
  | _ + 1, none => some none
  | n + 1, some cur => (m.node cur).bind fun d => if d.val.tid = tid then some (some d.val) else find m tid n d.next

/-- The last loop of `COWTraverse`, which moves the merge down to the tag. -/
def copyUntil (tid : TypeId) : Nat → Link → Nat → PacketTagLists → Option (PacketTagLists × Link × Nat)
  | 0, _, _, _ => none
  | n + 1, prevNext, cur, m =>
    (m.node cur).bind fun d =>
      if d.count ≤ 1 then none
      else if d.val.tid = tid then some (m, prevNext, cur)
      else if sizeOk d.val then
        d.next.bind fun next =>
          ((m.decr cur).bind fun m' =>
              ((m'.alloc ⟨d.next, 1, d.val⟩).incrAt d.next).bind fun m'' => m''.setTarget (some m'.nodes.length) prevNext).bind fun m' =>
            copyUntil tid n (.next m.nodes.length) next m'
      else none

abbrev COWWriter := PacketTagLists → Bool → Nat → Link → Option (PacketTagLists × Tag)

def cowTraverse (m : PacketTagLists) (list : Nat) (tid : TypeId) (writer : COWWriter) : Option (PacketTagLists × Option Tag) :=
  (m.list list).bind fun mNext =>
    (search m tid (m.nodes.length + 1) (.head list) mNext).bind fun r =>
      match r with
      | (_, none, _) => some (m, none)
      | (prevNext, some cur, true) => (writer m true cur prevNext).map fun r => (r.1, some r.2)
      | (prevNext, some cur, false) =>
        (find m tid (m.nodes.length + 1) (some cur)).bind fun there =>
          match there with
          | none => some (m, none)
          | some _ =>
            (copyUntil tid (m.nodes.length + 1) prevNext cur m).bind fun r =>
              (writer r.1 false r.2.2 r.2.1).map fun r => (r.1, some r.2)

def removeWriter : COWWriter := fun m preMerge cur prevNext =>
  (m.node cur).bind fun d =>
    if preMerge then ((m.setTarget d.next prevNext).bind fun m => m.free cur).map fun m => (m, d.val)
    else ((m.setTarget d.next prevNext).bind fun m => (m.decr cur).bind fun m => m.incrAt d.next).map fun m => (m, d.val)

/-- `Serialize` into a `TagBuffer` of the old size. -/
def overwrite (old new : Bytes) : Option Bytes :=
  if old.length < new.length then none else some (new ++ old.drop new.length)

def replaceWriter (tag : Tag) : COWWriter := fun m preMerge cur prevNext =>
  (m.node cur).bind fun d =>
    if preMerge then
      (overwrite d.val.data tag.data).bind fun data => (m.setVal cur { d.val with data := data }).map fun m => (m, tag)
    else if sizeOk tag then
      ((m.decr cur).bind fun m' =>
          ((m'.alloc ⟨d.next, 1, tag⟩).incrAt d.next).bind fun m'' => m''.setTarget (some m'.nodes.length) prevNext).map fun m => (m, tag)
    else none

def remove (m : PacketTagLists) (list : Nat) (tid : TypeId) : Option (PacketTagLists × Option Tag) :=
  cowTraverse m list tid removeWriter

def add (m : PacketTagLists) (list : Nat) (tag : Tag) : Option PacketTagLists :=
  (m.list list).bind fun mNext =>
    (find m tag.tid (m.nodes.length + 1) mNext).bind fun there =>
      if there.isSome ∨ ¬ sizeOk tag then none
      else (m.alloc ⟨mNext, 1, tag⟩).setTarget (some m.nodes.length) (.head list)

def replace (m : PacketTagLists) (list : Nat) (tag : Tag) : Option (PacketTagLists × Bool) :=
  (cowTraverse m list tag.tid (replaceWriter tag)).bind fun r =>
    if r.2.isSome then some (r.1, true) else (add r.1 list tag).map fun m => (m, false)

def peek (m : PacketTagLists) (list : Nat) (tid : TypeId) : Option (Option Tag) :=
  (m.list list).bind fun mNext => find m tid (m.nodes.length + 1) mNext

def release : Nat → Option Nat → PacketTagLists → Option PacketTagLists
  | 0, _, _ => none
  | _ + 1, none, m => some m
  | n + 1, some cur, m =>
    (m.node cur).bind fun d =>
      (m.decr cur).bind fun m => if 1 < d.count then some m else (m.free cur).bind (release n d.next)

def removeAll (m : PacketTagLists) (list : Nat) : Option PacketTagLists :=
  (m.list list).bind fun mNext => (release (m.nodes.length + 1) mNext m).bind fun m => m.setTarget none (.head list)

def copy (m : PacketTagLists) (o : Nat) : Option PacketTagLists :=
  (m.list o).bind fun mNext => (m.newList mNext).incrAt mNext

/-- `operator =`. -/
def assign (m : PacketTagLists) (list o : Nat) : Option PacketTagLists :=
  (m.list list).bind fun mNext =>
    (m.list o).bind fun oNext =>
      if mNext = oNext then some m
      else (removeAll m list).bind fun m => (m.setTarget oNext (.head list)).bind fun m => m.incrAt oNext

def destroy (m : PacketTagLists) (list : Nat) : Option PacketTagLists := (removeAll m list).map fun m => m.setList list none

def answer : Option Tag → TagAnswer
  | none => .notFound
  | some tag => .value tag.data

def answerOf (found : Bool) : TagAnswer := if found then .found else .notFound

def machine : Machine PacketTagLists TagEvent TagAnswer where
  step m
    | .create => some (m.newList none, [])
    | .copy o => (copy m o).map (·, [])
    | .assign list o => (assign m list o).map (·, [])
    | .destroy list => (destroy m list).map (·, [])
    | .add list tag => (add m list tag).map (·, [])
    | .remove list tid => (remove m list tid).map fun r => (r.1, [answer r.2])
    | .replace list tag => (replace m list tag).map fun r => (r.1, [answerOf r.2])
    | .peek list tid => (peek m list tid).map fun r => (m, [answer r])
    | .removeAll list => (removeAll m list).map (·, [])

end PacketTagLists

/-! ## Each list on its own -/

/-- The tags of each list; `none` for a list that was destroyed. -/
abbrev TagLists := List (Option (List Tag))

namespace TagLists

def has (tid : TypeId) (tag : Tag) : Bool := tag.tid = tid

def get (s : TagLists) (list : Nat) : Option (List Tag) := s[list]?.join

def machine : Machine TagLists TagEvent TagAnswer where
  step s
    | .create => some (s ++ [some []], [])
    | .copy o => (s.get o).map fun l => (s ++ [some l], [])
    | .assign list o => (s.get list).bind fun _ => (s.get o).map fun l => (s.set list (some l), [])
    | .destroy list => (s.get list).map fun _ => (s.set list none, [])
    | .add list tag => (s.get list).bind fun l => if l.any (has tag.tid) then none else some (s.set list (some (tag :: l)), [])
    | .remove list tid =>
      (s.get list).map fun l => (s.set list (some (l.eraseP (has tid))), [PacketTagLists.answer (l.find? (has tid))])
    | .replace list tag =>
      (s.get list).map fun l =>
        if l.any (has tag.tid) then (s.set list (some (l.replaceF fun x => if x.tid = tag.tid then some tag else none)), [.found])
        else (s.set list (some (tag :: l)), [.notFound])
    | .peek list tid => (s.get list).map fun l => (s, [PacketTagLists.answer (l.find? (has tid))])
    | .removeAll list => (s.get list).map fun _ => (s.set list (some []), [])

end TagLists

end Ns3
