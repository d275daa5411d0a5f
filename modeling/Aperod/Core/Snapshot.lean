import Aperod.Core.Registry

/-!
# Snapshots of the UTXO set

`UTXOSnapshot` of `utxo_snapshot.go` and how a set is rebuilt from it.  A snapshot lists the values
of the maps in the order of one `range` each, and the maps are indexed anew on restore: the list of
recent CLSAG outputs is not part of it, and key images stay those of the persistent index.  `call` is
one call of a method on a set, with its reply.
-/

namespace Aperod

open Go

structure UTXOSnapshot where
  activeUTXOs : List UTXO
  stakedUTXOs : List UTXO
  spentDecoys : List UTXO
  rollbackJournal : List (Nat × RollbackEntry)

/-- The values of a map in the order of one `range`. -/
def Ranges {K V : Type} [DecidableEq K] (m : GoMap K V) (l : List V) : Prop :=
  ∃ order ∈ m.enumerations, l = order.map Prod.snd

/-- The snapshots `TakeSnapshot` may give. -/
structure UTXOSnapshot.Of (s : UTXOSet) (snap : UTXOSnapshot) : Prop where
  active : Ranges s.utxos snap.activeUTXOs
  staked : Ranges s.stakedUTXOs snap.stakedUTXOs
  decoys : Ranges s.spentPubKeys snap.spentDecoys
  journal : ∃ order ∈ s.rollbackJournal.enumerations,
    snap.rollbackJournal = order.flatMap fun (height, entries) => entries.map (height, ·)

/-- Append an entry to the journal of its height. -/
def journalAppend (j : GoMap Nat (List RollbackEntry)) (e : Nat × RollbackEntry) :
    GoMap Nat (List RollbackEntry) :=
  j.set e.1 ((j.get e.1).getD [] ++ [e.2])

def UTXOSet.restoreFromSnapshot (t : UTXOSet) (snap : UTXOSnapshot) : UTXOSet :=
  { t with
    utxos := GoMap.index UTXO.key snap.activeUTXOs ∅
    byPubKey := GoMap.index UTXO.oneTimePub (snap.activeUTXOs.filter (!·.protocolLocked)) ∅
    stakedUTXOs := GoMap.index UTXO.key snap.stakedUTXOs ∅
    spentPubKeys := GoMap.index UTXO.oneTimePub (snap.spentDecoys.filter (!·.protocolLocked)) ∅
    rollbackJournal :=
      (snap.rollbackJournal.filter (!·.2.2.protocolLocked)).foldl journalAppend ∅ }

/-! ### A set and its users -/

/-- All key images in the database, as the restarted process finds them. -/
def KeyImageSet.flushed (c : KeyImageSet) : KeyImageSet where
  kiDB := some (c.recent ∪ c.older)

/-- `NewUTXOSetWithDB` and `SetCLSAGActivationHeight`. -/
def newUTXOSet (keyImages : KeyImageSet) (ringMembers : Option RingMemberStore)
    (clsagActivationHeight : Nat) : UTXOSet :=
  { keyImages, ringMembers, clsagActivationHeight }

/-- The set a restarted process makes from a snapshot: the configuration and the database are the
same. -/
def UTXOSet.reopen (s : UTXOSet) (snap : UTXOSnapshot) : UTXOSet :=
  (newUTXOSet s.keyImages.flushed s.ringMembers s.clsagActivationHeight).restoreFromSnapshot snap

def UTXOSet.add (s : UTXOSet) (u : UTXO) : UTXOSet := s.addOutput u.blockHeight u

/-- A call of one of the methods. -/
inductive UTXOCall
  | get (k : UTXOKey)
  | getByPubKey (pub : Point32)
  | getRingMember (pub : Point32)
  | isStaked (k : UTXOKey)
  | isSpent (ki : KeyImage)
  | add (u : UTXO)
  | remove (k : UTXOKey)
  | markSpent (ki : KeyImage)
  | markStaked (k : UTXOKey)
  | unmarkStaked (k : UTXOKey)
  | applyBlock (b : Block)
  | rollbackBlock (b : Block)

/-- What it returns. -/
inductive UTXOReply
  | output (u : Option UTXO)
  | flag (b : Bool)
  | done (r : Result Unit)

/-- A fallible update: a failed one leaves the set as it was. -/
def UTXOSet.update (s : UTXOSet) : Result UTXOSet → UTXOSet × UTXOReply
  | .ok s' => (s', .done (.ok ()))
  | .error e => (s, .done (.error e))

variable (C : Externals)

def UTXOSet.call (s : UTXOSet) : UTXOCall → UTXOSet × UTXOReply
  | .get k => (s, .output (s.get k))
  | .getByPubKey pub => (s, .output (s.getByPubKey pub))
  | .getRingMember pub => (s, .output (s.getRingMember pub))
  | .isStaked k => (s, .flag (s.isStaked k))
  | .isSpent ki => (s, .flag (s.isSpent C ki))
  | .add u => (s.add u, .done (.ok ()))
  | .remove k => (s.evict k, .done (.ok ()))
  | .markSpent ki => (s.markSpent C ki, .done (.ok ()))
  | .markStaked k => s.update (s.markStaked k)
  | .unmarkStaked k => (s.unmarkStaked k, .done (.ok ()))
  | .applyBlock b => s.update (s.applyBlock C b)
  | .rollbackBlock b => (s.rollbackBlock C b, .done (.ok ()))

/-- The replies to calls made one after the other. -/
def UTXOSet.replies (s : UTXOSet) : List UTXOCall → List UTXOReply
  | [] => []
  | c :: cs => (s.call C c).2 :: (s.call C c).1.replies cs

end Aperod
