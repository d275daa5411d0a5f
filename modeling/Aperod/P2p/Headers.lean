import Aperod.Core.Chain

/-!
# Header requests

`requestHeaders`, `handleGetHeaders` and `headersFromStore` of `p2p/host.go`.  A host answers from the
durable store and, when that gives nothing, from the window of its chain.
-/

namespace Aperod

open Go

structure GetHeadersMsg where
  knownHashes : List Hash32
  limit : Int

/-- What a host answers from; each source may be missing. -/
structure HeaderSources where
  headers : Option Chain := none
  blockByHash : Option (Hash32 → Option Block) := none
  blockByHeight : Option (Nat → Option Block) := none

variable (C : Externals)

def requestHeaders (c : Chain) : GetHeadersMsg := ⟨c.tailHashes C 32, 500⟩

/-- The loop of `headersFromStore`: up to `limit` headers, until a height is missing. -/
def storedHeaders (byHeight : Nat → Option Block) : Nat → Nat → List BlockHeader
  | _, 0 => []
  | height, limit + 1 =>
    match byHeight height with
    | some b => b.header :: storedHeaders byHeight (height + 1) limit
    | none => []

def headersFromStore (byHash : Hash32 → Option Block) (byHeight : Nat → Option Block)
    (known : List Hash32) (limit : Nat) : List BlockHeader :=
  let bestHeight := known.foldl (fun best h => max best ((byHash h).elim 0 (·.header.height))) 0
  -- no common ancestor found even in persistent store
  if bestHeight = 0 then [] else storedHeaders byHeight (bestHeight + 1) limit

/-- The headers `handleGetHeaders` sends. -/
def handleGetHeaders (s : HeaderSources) (msg : GetHeadersMsg) : List BlockHeader :=
  let limit := if msg.limit ≤ 0 ∨ msg.limit > 10 then 10 else msg.limit.toNat
  let stored := match s.blockByHash, s.blockByHeight with
    | some byHash, some byHeight => headersFromStore byHash byHeight msg.knownHashes limit
    | _, _ => []
  if stored = [] then s.headers.elim [] (·.headersFrom C msg.knownHashes limit) else stored

end Aperod
