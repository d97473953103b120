import Nearcore.Network.EdgeCache
import Nearcore.Library.Loop

/-! The distance-vector routing of `routing/graph_v2/mod.rs`: the local node keeps, for each
direct peer, the distances that peer advertised, checked against the spanning tree of signed
edges it sent with them, and computes its next hops and its own distances from them. Events are
handled one at a time, as `batch_process_network_changes` does under its lock. A `u32` distance
that a peer advertises is a natural number below `2 ^ 32` and `peer_distance + 1` is a checked
addition; tree depths, bounded by the peers in memory, are natural numbers. The edges that the
parallel verification keeps are taken in the order of the batch. The clock is the unix time
`now`. -/
namespace Nearcore.Network.GraphV2

open Unsigned Collections

variable {P S : Type} [LinearOrder P]

/-- `AdvertisedPeerDistance`. -/
structure AdvertisedPeerDistance (P : Type) where
  destination : P
  distance : Nat

/-- `DistanceVector`: the peer that sends it, its distances, and the spanning tree that shows
them. -/
structure DistanceVector (P S : Type) where
  root : P
  distances : List (AdvertisedPeerDistance P)
  edges : List (Edge P S)

/-- `PeerDistances`: a peer's distances, indexed by the ids of the cache, and the least nonce of
the tree that showed them. -/
structure PeerDistances where
  distance : List (Option Nat)
  minNonce : Nat

/-- `entry.distance.resize(max_id, None)`. -/
def PeerDistances.resized (entry : PeerDistances) (maxId : Nat) : PeerDistances :=
  { entry with distance := resize entry.distance maxId none }

section
attribute [local simp] PeerDistances.resized
end

/-- `NetworkTopologyChange`. -/
inductive NetworkTopologyChange (P S : Type) where
  | peerConnected (peerId : P) (edge : Edge P S)
  | peerDisconnected (peerId : P)
  | peerAdvertisedDistances (distanceVector : DistanceVector P S)
  | edgeNonceRefresh (edges : List (Edge P S))

/-- `Inner`, with the two fields of `GraphConfigV2`. -/
structure Inner (P S : Type) where
  nodeId : P
  pruneEdgesAfter : Option Nat
  edgeCache : EdgeCache P S
  localEdges : P → Option (Edge P S)
  peerDistances : List (P × PeerDistances)
  myDistances : List (P × Nat)
  myDistanceVector : DistanceVector P S

/-- The search of `calculate_tree_distances`: the queue, and the distance from the root and the
first step out of it of each id. -/
structure Search where
  queue : List Nat
  distance : List (Option Nat)
  firstStep : List (Option Nat)

/-- A neighbour of the id `cur`, which is at `curDistance`: one not reached yet is reached through
`cur` and queued. -/
def visitNeighbor (cur curDistance : Nat) (search : Search) (neighbor : Nat) : Except Panic Search := do
  if (← index search.distance neighbor).isNone then
    let distance ← indexSet search.distance neighbor (some (curDistance + 1))
    let step ← index search.firstStep cur
    let firstStep ← indexSet search.firstStep neighbor (step.or (some neighbor))
    pure ⟨search.queue ++ [neighbor], distance, firstStep⟩
  else pure search

section
attribute [local simp] visitNeighbor
end

/-- One pass of the `while let`: the front of the queue is popped and its neighbours visited; an
empty queue ends the search. -/
def searchPass (adjacency : List (List Nat)) (search : Search) : Except Panic (Option Search) :=
  match search.queue with
  | [] => pure none
  | cur :: queue => do
    let curDistance ← unwrap (← index search.distance cur)
    let neighbors ← index adjacency cur
    some <$> neighbors.foldlM (visitNeighbor cur curDistance) { search with queue }

section
attribute [local simp] searchPass
end

/-- What each pass lowers: an id reached leaves the unreached ones and enters the queue once. -/
def searchVariant (search : Search) : Nat := 2 * search.distance.countP Option.isNone + search.queue.length

section
attribute [local simp] searchVariant
end

theorem visitNeighbor_variant {cur curDistance neighbor : Nat} {search search' : Search}
    (visited : visitNeighbor cur curDistance search neighbor = .ok search') :
    searchVariant search' ≤ searchVariant search := by
  unfold visitNeighbor at visited
  cases read : index search.distance neighbor with
  | error e => rw [read] at visited; cases visited
  | ok slot =>
    rw [read, Except.ok_bind] at visited
    split at visited
    · rename_i unreached
      have valid : neighbor < search.distance.length := by
        by_contra past
        rw [index_of_le (Nat.le_of_not_lt past)] at read
        cases read
      have there : search.distance[neighbor] = slot := by
        rw [index_of_lt valid] at read
        cases read
        rfl
      rw [indexSet_of_lt _ valid, Except.ok_bind] at visited
      obtain ⟨step, -, visited⟩ := Except.bind_eq_ok visited
      obtain ⟨firstStep, -, visited⟩ := Except.bind_eq_ok visited
      cases visited
      have counted := List.countP_set (p := Option.isNone) (a := some (curDistance + 1)) valid
      have present : 0 < search.distance.countP Option.isNone :=
        List.countP_pos_iff.mpr ⟨_, List.getElem_mem valid, there ▸ unreached⟩
      simp only [there, unreached, if_true, Option.isNone_some, Bool.false_eq_true, if_false] at counted
      simp only [searchVariant, counted, List.length_append, List.length_singleton]
      omega
    · cases visited
      exact le_refl _

/-- Every pass that goes on lowers the variant, so that the search ends. -/
theorem searchPass_decreases (adjacency : List (List Nat)) (search search' : Search)
    (passed : searchPass adjacency search = .ok (some search')) : searchVariant search' < searchVariant search := by
  unfold searchPass at passed
  split at passed
  · cases passed
  · rename_i cur queue popped
    obtain ⟨slot, -, passed⟩ := Except.bind_eq_ok passed
    obtain ⟨curDistance, -, passed⟩ := Except.bind_eq_ok passed
    obtain ⟨neighbors, -, passed⟩ := Except.bind_eq_ok passed
    cases folded : neighbors.foldlM (visitNeighbor cur curDistance) { search with queue } with
    | error e => rw [folded] at passed; cases passed
    | ok result =>
      rw [folded] at passed
      cases passed
      have kept : searchVariant search' ≤ searchVariant { search with queue } :=
        List.foldlM_keeps_of_ok (fun s => searchVariant s ≤ searchVariant { search with queue })
          (fun _ _ _ visited below => le_trans (visitNeighbor_variant visited) below) folded (le_refl _)
      have popped' : searchVariant { search with queue } + 1 = searchVariant search := by
        simp [searchVariant, popped]
        omega
      omega

namespace Inner

/-- `GraphV2::new`: the local node knows only itself, at distance 0. -/
def new (nodeId : P) (pruneEdgesAfter : Option Nat) : Inner P S :=
  ⟨nodeId, pruneEdgesAfter, EdgeCache.new nodeId, fun _ => none, [], [(nodeId, 0)], ⟨nodeId, [⟨nodeId, 0⟩], []⟩⟩

section
attribute [local simp] new
end

variable (verifySignature : S → P × P × Nat → P → Bool)

/-- `verify_and_cache_edge_nonces`: a batch with an edge that is not active is refused; of the
others, the edges not known yet are verified, and the nonces of those verified before the first
that fails are stored. -/
def verifyAndCacheEdgeNonces (inner : Inner P S) (edges : List (Edge P S)) : Bool × Inner P S :=
  if edges.any fun edge => edge.edgeType != .active then (false, inner)
  else
    let unverifiedEdges := edges.filter fun edge => !inner.edgeCache.hasEdgeNonceOrNewer edge
    let verifiedEdges := unverifiedEdges.takeWhile (Edge.verify verifySignature)
    (unverifiedEdges.all (Edge.verify verifySignature),
      { inner with edgeCache := verifiedEdges.foldl EdgeCache.writeVerifiedNonce inner.edgeCache })

section
attribute [local simp] verifyAndCacheEdgeNonces
end

/-- An edge of the tree in the adjacency lists: the id of each of its peers gets the other's. -/
def addAdjacency (edgeCache : EdgeCache P S) (adjacency : List (List Nat)) (edge : Edge P S) :
    Except Panic (List (List Nat)) := do
  let id0 ← edgeCache.getId edge.key.1
  let id1 ← edgeCache.getId edge.key.2
  let adjacency ← indexModify adjacency id0 (· ++ [id1])
  indexModify adjacency id1 (· ++ [id0])

section
attribute [local simp] addAdjacency
end

/-- `calculate_tree_distances`: ids for the peers of the tree, the adjacency of its edges, and a
breadth-first search from the root, whose distances and first steps are kept if it reaches one
peer more than there are edges. -/
def calculateTreeDistances (inner : Inner P S) (root : P) (treeEdges : List (Edge P S)) :
    Except Panic (Option (List (Option Nat) × List (Option Nat)) × Inner P S) := do
  let edgeCache ← inner.edgeCache.createIdsForTree root treeEdges
  let adjacency ← treeEdges.foldlM (addAdjacency edgeCache) (List.replicate edgeCache.maxId [])
  let rootId ← edgeCache.getId root
  let distance ← indexSet (List.replicate edgeCache.maxId none) rootId (some 0)
  let search ← Loop.run (searchPass adjacency) searchVariant (searchPass_decreases adjacency)
    ⟨[rootId], distance, List.replicate edgeCache.maxId none⟩
  let inner := { inner with edgeCache }
  if search.distance.countP Option.isSome ≠ treeEdges.length + 1 then pure (none, inner)
  else pure (some (search.distance, search.firstStep), inner)

section
attribute [local simp] calculateTreeDistances
end

/-- The first loop of `validate_routing_distances`: each advertised destination gets an id, and
its distance is written at that id of a vector as long as the ids were before the loop. -/
def advertiseDistances (edgeCache : EdgeCache P S) (distances : List (AdvertisedPeerDistance P)) :
    Except Panic (List (Option Nat) × EdgeCache P S) :=
  distances.foldlM (fun (advertised, edgeCache) entry => do
      let (destinationId, edgeCache) ← edgeCache.getOrCreateId entry.destination
      let advertised ← indexSet advertised destinationId (some entry.distance)
      pure (advertised, edgeCache))
    (List.replicate edgeCache.maxId none, edgeCache)

section
attribute [local simp] advertiseDistances
end

/-- The second loop: every advertised distance is at least the tree's, and the tree reaches
nothing else. -/
def isConsistent (maxId : Nat) (advertised treeDistance : List (Option Nat)) : Except Panic Bool :=
  (List.range maxId).foldlM (fun consistent id => do
      match ← index advertised id with
      | some advertisedDistance =>
        pure (consistent && (← index treeDistance id).any fun treeDistance => treeDistance ≤ advertisedDistance)
      | none => pure (consistent && (← index treeDistance id).isNone))
    true

section
attribute [local simp] isConsistent
end

/-- The third loop: the routes whose first step is the local node are dropped. -/
def pruneLocalRoutes (maxId : Nat) (firstStep advertised : List (Option Nat)) : Except Panic (List (Option Nat)) :=
  (List.range maxId).foldlM (fun advertised id => do
      if id ≠ EdgeCache.getLocalNodeId then
        if (← index firstStep id).any (· = EdgeCache.getLocalNodeId) then indexSet advertised id none
        else pure advertised
      else pure advertised)
    advertised

section
attribute [local simp] pruneLocalRoutes
end

/-- `validate_routing_distances`. -/
def validateRoutingDistances (inner : Inner P S) (distanceVector : DistanceVector P S) :
    Except Panic (Option (List (Option Nat)) × Inner P S) :=
  let edges := Edge.deduplicate distanceVector.edges
  if edges.length ≠ distanceVector.edges.length then pure (none, inner)
  else
    let (ok, inner) := inner.verifyAndCacheEdgeNonces verifySignature edges
    if !ok then pure (none, inner)
    else do
      let (treeTraversal, inner) ← inner.calculateTreeDistances distanceVector.root edges
      match treeTraversal with
      | none => pure (none, inner)
      | some (treeDistance, firstStep) =>
        let (advertised, edgeCache) ← advertiseDistances inner.edgeCache distanceVector.distances
        let inner := { inner with edgeCache }
        if !(← isConsistent edgeCache.maxId advertised treeDistance) then pure (none, inner)
        else
          let advertised ← pruneLocalRoutes edgeCache.maxId firstStep advertised
          pure (some advertised, inner)

section
attribute [local simp] validateRoutingDistances
end

/-- The end of `store_validated_peer_distances`: the tree is stored, and the distances with the
least nonce of its edges. -/
def storeSpanningTree (inner : Inner P S) (root : P) (spanningTree : List (Edge P S))
    (advertised : List (Option Nat)) : Except Panic (Bool × Inner P S) := do
  let minNonce ← unwrap (spanningTree.map Edge.nonce).min?
  let edgeCache ← inner.edgeCache.updateTree root spanningTree
  pure (true, { inner with edgeCache, peerDistances := insertEntry inner.peerDistances root ⟨advertised, minNonce⟩ })

section
attribute [local simp] storeSpanningTree
end

/-- `store_validated_peer_distances`: the edge to the root in the tree, if it is newer, becomes
the local edge; the distances are stored if the local edge is active, with that edge added to the
tree if it was not there. `debug_assert!` is not compiled in the release build. -/
def storeValidatedPeerDistances (inner : Inner P S) (distanceVector : DistanceVector P S)
    (advertised : List (Option Nat)) : Except Panic (Bool × Inner P S) := do
  let localNodeId := EdgeCache.getLocalNodeId
  if (← index advertised localNodeId).any (· > 1) then pure (false, inner)
  else
    let treeEdge := distanceVector.edges.find? fun edge =>
      edge.containsPeer inner.nodeId && edge.containsPeer distanceVector.root
    let localEdges := match treeEdge with
      | some treeEdge => Function.update inner.localEdges distanceVector.root
          (some (match inner.localEdges distanceVector.root with
            | some localEdge => if treeEdge.nonce > localEdge.nonce then treeEdge else localEdge
            | none => treeEdge))
      | none => inner.localEdges
    let inner := { inner with localEdges }
    match localEdges distanceVector.root with
    | none => pure (false, inner)
    | some localEdge =>
      if localEdge.edgeType = .removed then pure (false, inner)
      else
        match treeEdge with
        | some _ => inner.storeSpanningTree distanceVector.root distanceVector.edges advertised
        | none => do
          if (← index advertised localNodeId).isSome then pure (false, inner)
          else
            let advertised ← indexSet advertised localNodeId (some 1)
            inner.storeSpanningTree distanceVector.root (distanceVector.edges ++ [localEdge]) advertised

section
attribute [local simp] storeValidatedPeerDistances
end

/-- `handle_distance_vector`: whether the vector was valid; ids given for it are freed again
unless its distances were stored. -/
def handleDistanceVector (inner : Inner P S) (distanceVector : DistanceVector P S) :
    Except Panic (Bool × Inner P S) :=
  if inner.nodeId = distanceVector.root then pure (false, inner)
  else do
    let (validatedDistances, inner) ← inner.validateRoutingDistances verifySignature distanceVector
    let (stored, inner) ← match validatedDistances with
      | some distances => inner.storeValidatedPeerDistances distanceVector distances
      | none => pure (false, inner)
    if !stored then
      let edgeCache ← inner.edgeCache.freeUnusedIds
      pure (validatedDistances.isSome, { inner with edgeCache })
    else pure (validatedDistances.isSome, inner)

section
attribute [local simp] handleDistanceVector
end

/-- One edge of `handle_edge_nonce_refresh`: the newer nonce of an active edge is stored
unverified. -/
def refreshEdgeNonce (edgeCache : EdgeCache P S) (edge : Edge P S) : EdgeCache P S :=
  if edge.edgeType != .active then edgeCache
  else if !edgeCache.hasEdgeNonceOrNewer edge then edgeCache.writeVerifiedNonce edge
  else edgeCache

/-- `handle_edge_nonce_refresh`. -/
def handleEdgeNonceRefresh (inner : Inner P S) (edges : List (Edge P S)) : Bool × Inner P S :=
  (true, { inner with edgeCache := edges.foldl refreshEdgeNonce inner.edgeCache })

/-- `remove_direct_peer`: an active local edge is replaced by its unsigned removal, one nonce
later, and the peer's tree and distances are dropped. -/
def removeDirectPeer [Inhabited S] (inner : Inner P S) (peerId : P) : Except Panic (Inner P S) := do
  let localEdges ← match inner.localEdges peerId with
    | some edge => do
      let edge ← if edge.edgeType != .removed then do
          let nonce ← add 64 edge.nonce 1
          pure (Edge.makeFakeEdge edge.key.1 edge.key.2 nonce)
        else pure edge
      if edge.edgeType != .removed then throw ⟨"assertion failed: edge.edge_type() == EdgeState::Removed"⟩
      pure (Function.update inner.localEdges peerId (some edge))
    | none => pure inner.localEdges
  let edgeCache ← inner.edgeCache.removeTree peerId
  pure { inner with localEdges, edgeCache, peerDistances := removeEntry inner.peerDistances peerId }

/-- `add_or_update_direct_peer`: a new active edge to the peer is verified and stored, and a
peer with no distances yet is taken to advertise itself at 0 and the local node at 1. -/
def addOrUpdateDirectPeer (inner : Inner P S) (peerId : P) (edge : Edge P S) : Except Panic (Bool × Inner P S) :=
  if edge.edgeType ≠ .active then throw ⟨"assertion `left == right` failed\n  left: Removed\n right: Active"⟩
  else if inner.edgeCache.hasEdgeNonceOrNewer edge then pure (true, inner)
  else
    let (ok, inner) := inner.verifyAndCacheEdgeNonces verifySignature [edge]
    if !ok then pure (false, inner)
    else
      let inner := { inner with localEdges := Function.update inner.localEdges peerId (some edge) }
      if (inner.peerDistances.lookup peerId).isNone then do
        let (_, inner) ← inner.handleDistanceVector verifySignature
          ⟨peerId, [⟨peerId, 0⟩, ⟨inner.nodeId, 1⟩], [edge]⟩
        pure (true, inner)
      else pure (true, inner)

section
attribute [local simp] addOrUpdateDirectPeer
end

/-- `handle_network_change`. -/
def handleNetworkChange [Inhabited S] (inner : Inner P S) : NetworkTopologyChange P S → Except Panic (Bool × Inner P S)
  | .peerConnected peerId edge => inner.addOrUpdateDirectPeer verifySignature peerId edge
  | .peerDisconnected peerId => do pure (true, ← inner.removeDirectPeer peerId)
  | .peerAdvertisedDistances distanceVector => inner.handleDistanceVector verifySignature distanceVector
  | .edgeNonceRefresh edges => pure (inner.handleEdgeNonceRefresh edges)

section
attribute [local simp] handleNetworkChange
end

/-- The updates of `batch_process_network_changes`, in order, with whether each was valid. -/
def handleNetworkChanges [Inhabited S] (inner : Inner P S) (updates : List (NetworkTopologyChange P S)) :
    Except Panic (List Bool × Inner P S) :=
  updates.foldlM (fun (oks, inner) update => do
      let (ok, inner) ← inner.handleNetworkChange verifySignature update
      pure (oks ++ [ok], inner))
    ([], inner)

section
attribute [local simp] handleNetworkChanges
end

/-- One id of the first loop of `compute_next_hops`: a peer's distance plus one, with a checked
`u32` addition, lowers the least distance known. -/
def relaxMinDistance (distance minDistance : List (Option Nat)) (id : Nat) : Except Panic (List (Option Nat)) := do
  match ← index distance id with
  | some peerDistance =>
    let within ← match ← index minDistance id with
      | some least => do pure (decide (least ≤ (← add 32 peerDistance 1)))
      | none => pure false
    if !within then indexSet minDistance id (some (← add 32 peerDistance 1)) else pure minDistance
  | none => pure minDistance

section
attribute [local simp] relaxMinDistance
end

/-- The first loop of `compute_next_hops` over the ids, for one peer. -/
def relaxPeer {κ : Type} (maxId : Nat) (minDistance : List (Option Nat)) (peerEntry : κ × PeerDistances) :
    Except Panic (List (Option Nat)) :=
  (List.range maxId).foldlM (relaxMinDistance peerEntry.2.distance) minDistance

/-- One id of the second loop: the peers through which the id is at its least distance. -/
def nextHopsAt (peerDistances : List (P × PeerDistances)) (nextHopsById : List (List P)) (id : Nat)
    (idDistance : Nat) : Except Panic (List (List P)) :=
  peerDistances.foldlM (fun nextHopsById (peerId, entry) => do
      let through ← match ← index entry.distance id with
        | some peerDistance => do pure ((← add 32 peerDistance 1) == idDistance)
        | none => pure false
      if through then indexModify nextHopsById id (· ++ [peerId]) else pure nextHopsById)
    nextHopsById

/-- `compute_next_hops`: each peer's distances are resized to the ids of the cache, the least
distance to each id is one more than the least a peer advertised, and the next hops to a peer are
the peers through which it is that near. -/
def computeNextHops (inner : Inner P S) :
    Except Panic ((List (P × List P) × List (P × Nat)) × Inner P S) := do
  let maxId := inner.edgeCache.maxId
  let minDistance ← indexSet (List.replicate maxId none) EdgeCache.getLocalNodeId (some 0)
  -- the resizing does not fail, so that it may be done for all peers before the loop
  let peerDistances := inner.peerDistances.map fun peerEntry => (peerEntry.1, peerEntry.2.resized maxId)
  let minDistance ← peerDistances.foldlM (relaxPeer maxId) minDistance
  let nextHopsById ← (List.range maxId).foldlM (fun nextHopsById id => do
      match ← index minDistance id with
      | some idDistance => nextHopsAt peerDistances nextHopsById id idDistance
      | none => pure nextHopsById)
    (List.replicate maxId [])
  let nextHops ← inner.edgeCache.p2id.foldlM (fun nextHops (peerId, id) => do
      let hops ← index nextHopsById id
      if !hops.isEmpty then pure (insertEntry nextHops peerId hops) else pure nextHops)
    []
  let distance ← inner.edgeCache.p2id.foldlM (fun distance (peerId, id) => do
      match ← index minDistance id with
      | some peerDistance => pure (insertEntry distance peerId peerDistance)
      | none => pure distance)
    []
  pure ((nextHops, distance), { inner with peerDistances })

section
attribute [local simp] computeNextHops
end

section NextHops

variable {distance minDistance minDistance' : List (Option Nat)} {id : Nat}

/-- A peer that does not reach the id leaves the least distances alone. -/
theorem relaxMinDistance_of_none (inDistance : id < distance.length) (unreached : distance[id] = none) :
    relaxMinDistance distance minDistance id = .ok minDistance := by
  rw [relaxMinDistance, index_of_lt inDistance, unreached]
  rfl

/-- A peer that reaches the id at `u32::MAX` overflows the addition, whatever is known already. -/
theorem relaxMinDistance_of_overflow {peerDistance : Nat} (inDistance : id < distance.length)
    (inMin : id < minDistance.length) (reached : distance[id] = some peerDistance)
    (exceeds : 2 ^ 32 ≤ peerDistance + 1) :
    relaxMinDistance distance minDistance id = .error ⟨"attempt to add with overflow"⟩ := by
  rw [relaxMinDistance, index_of_lt inDistance, reached, Except.ok_bind]
  simp only [index_of_lt inMin, Except.ok_bind]
  cases minDistance[id] with
  | none => simp [add_of_le exceeds]
  | some least => simp [add_of_le exceeds]

/-- A peer that reaches the id below `u32::MAX` lowers its least distance to one more. -/
theorem relaxMinDistance_of_lt {peerDistance : Nat} (inDistance : id < distance.length)
    (inMin : id < minDistance.length) (reached : distance[id] = some peerDistance)
    (fits : peerDistance + 1 < 2 ^ 32) :
    relaxMinDistance distance minDistance id =
      .ok (if (minDistance[id]).any (· ≤ peerDistance + 1) then minDistance
        else minDistance.set id (some (peerDistance + 1))) := by
  rw [relaxMinDistance, index_of_lt inDistance, reached, Except.ok_bind]
  simp only [index_of_lt inMin, Except.ok_bind]
  cases minDistance[id] with
  | none => simp [add_of_lt fits, indexSet_of_lt _ inMin]
  | some least =>
    by_cases within : least ≤ peerDistance + 1
    · simp [add_of_lt fits, within]
    · simp [add_of_lt fits, within, indexSet_of_lt _ inMin]

/-- At an id of both vectors, the step fails only by overflowing, and otherwise keeps the length. -/
theorem relaxMinDistance_cases (inDistance : id < distance.length) (inMin : id < minDistance.length) :
    (∃ minDistance', relaxMinDistance distance minDistance id = .ok minDistance' ∧
      minDistance'.length = minDistance.length) ∨
    relaxMinDistance distance minDistance id = .error ⟨"attempt to add with overflow"⟩ := by
  cases reached : distance[id] with
  | none => exact .inl ⟨_, relaxMinDistance_of_none inDistance reached, rfl⟩
  | some peerDistance =>
    by_cases fits : peerDistance + 1 < 2 ^ 32
    · refine .inl ⟨_, relaxMinDistance_of_lt inDistance inMin reached fits, ?_⟩
      split <;> simp
    · exact .inr (relaxMinDistance_of_overflow inDistance inMin reached (Nat.le_of_not_lt fits))

/-- A step that succeeds keeps the length of the least distances. -/
theorem relaxMinDistance_length (relaxed : relaxMinDistance distance minDistance id = .ok minDistance') :
    minDistance'.length = minDistance.length := by
  have inDistance : id < distance.length := by
    by_contra past
    rw [relaxMinDistance, index_of_le (Nat.le_of_not_lt past), Except.error_bind] at relaxed
    cases relaxed
  cases reached : distance[id] with
  | none =>
    rw [relaxMinDistance_of_none inDistance reached] at relaxed
    cases relaxed
    rfl
  | some peerDistance =>
    have inMin : id < minDistance.length := by
      by_contra past
      rw [relaxMinDistance, index_of_lt inDistance, reached, Except.ok_bind] at relaxed
      simp [index_of_le (Nat.le_of_not_lt past)] at relaxed
    rcases relaxMinDistance_cases inDistance inMin with ⟨relaxed', done, kept⟩ | failed
    · rw [done] at relaxed
      cases relaxed
      exact kept
    · rw [failed] at relaxed
      cases relaxed

variable {κ : Type} {maxId : Nat} {peerEntry : κ × PeerDistances}

theorem relaxPeer_length (relaxed : relaxPeer maxId minDistance peerEntry = .ok minDistance') :
    minDistance'.length = minDistance.length :=
  List.foldlM_keeps_of_ok (fun s => s.length = minDistance.length)
    (fun _ _ _ step same => (relaxMinDistance_length step).trans same) relaxed rfl

/-- For one peer whose distances cover the ids, the loop over the ids fails only by
overflowing. -/
theorem relaxPeer_error (sized : peerEntry.2.distance.length = maxId) (inMin : minDistance.length = maxId)
    {e : Panic} (failed : relaxPeer maxId minDistance peerEntry = .error e) :
    e = ⟨"attempt to add with overflow"⟩ :=
  List.foldlM_error_of_invariant (fun s => s.length = maxId)
    (fun _ _ _ same step => (relaxMinDistance_length step).trans same)
    (fun id member s e' same step => by
      have below : id < maxId := List.mem_range.mp member
      rcases relaxMinDistance_cases (sized ▸ below) (same ▸ below) with ⟨_, done, -⟩ | overflowed
      · rw [done] at step
        cases step
      · rw [overflowed] at step
        cases step
        rfl)
    inMin failed

/-- The same loop for a peer at `u32::MAX` from some id does fail. -/
theorem relaxPeer_of_max (sized : peerEntry.2.distance.length = maxId) (inMin : minDistance.length = maxId)
    (inRange : id < maxId) (farthest : peerEntry.2.distance[id]? = some (some (2 ^ 32 - 1))) :
    relaxPeer maxId minDistance peerEntry = .error ⟨"attempt to add with overflow"⟩ := by
  have inDistance : id < peerEntry.2.distance.length := sized ▸ inRange
  have reached : peerEntry.2.distance[id] = some (2 ^ 32 - 1) := by
    rw [List.getElem?_eq_getElem inDistance] at farthest
    exact Option.some.inj farthest
  refine List.foldlM_eq_error_of_mem (f := relaxMinDistance peerEntry.2.distance) (fun s => s.length = maxId)
    (fun _ _ _ same step => (relaxMinDistance_length step).trans same)
    (fun s same => ⟨_, relaxMinDistance_of_overflow inDistance (same ▸ inRange) reached (by omega)⟩)
    (fun x member s e' same step => ?_) (List.mem_range.mpr inRange) inMin
  have below : x < maxId := List.mem_range.mp member
  rcases relaxMinDistance_cases (sized ▸ below) (same ▸ below) with ⟨_, done, -⟩ | overflowed
  · rw [done] at step
    cases step
  · rw [overflowed] at step
    cases step
    rfl

end NextHops

/-- A stored distance of `u32::MAX` to an id in range makes `compute_next_hops` panic: the
addition `peer_distance + 1` of its first loop overflows, whatever the other peers advertised. -/
theorem computeNextHops_overflows (inner : Inner P S) {peer : P} {entry : PeerDistances} {id : Nat}
    (stored : (peer, entry) ∈ inner.peerDistances) (inRange : id < inner.edgeCache.maxId)
    (farthest : entry.distance[id]? = some (some (2 ^ 32 - 1))) :
    inner.computeNextHops = .error ⟨"attempt to add with overflow"⟩ := by
  have inEntry : id < entry.distance.length := (List.getElem?_eq_some_iff.mp farthest).1
  have resizedFarthest : (entry.resized inner.edgeCache.maxId).distance[id]? = some (some (2 ^ 32 - 1)) := by
    rw [PeerDistances.resized, getElem?_resize none inEntry inRange, farthest]
  -- the loop over the peers, from least distances as long as the ids, fails at the peer
  have first : ∀ minDistance : List (Option Nat), minDistance.length = inner.edgeCache.maxId →
      (inner.peerDistances.map fun peerEntry => (peerEntry.1, peerEntry.2.resized inner.edgeCache.maxId)).foldlM
        (relaxPeer inner.edgeCache.maxId) minDistance = .error ⟨"attempt to add with overflow"⟩ := by
    intro minDistance sized
    refine List.foldlM_eq_error_of_mem (fun s => s.length = inner.edgeCache.maxId)
      (fun _ _ _ same step => (relaxPeer_length step).trans same)
      (fun s same => ⟨_, relaxPeer_of_max (length_resize _ _ _) same inRange resizedFarthest⟩)
      (fun x member s e' same failed => ?_) (List.mem_map_of_mem stored) sized
    obtain ⟨y, -, rfl⟩ := List.mem_map.mp member
    exact relaxPeer_error (length_resize _ _ _) same failed
  have positive : EdgeCache.getLocalNodeId < (List.replicate inner.edgeCache.maxId (none : Option Nat)).length := by
    simp only [List.length_replicate, EdgeCache.getLocalNodeId]
    omega
  simp only [computeNextHops, indexSet_of_lt _ positive, Except.ok_bind]
  rw [first _ (by simp), Except.error_bind]



/-- `prune_expired_peer_distances`: a peer whose tree is older than the pruning age, even with the
nonces refreshed from the cache, is removed as if disconnected, and old local edges and nonces
are dropped. The cut-off is a unix time cast to `u64`. -/
def pruneExpiredPeerDistances [Inhabited S] (inner : Inner P S) (now : Int) : Except Panic (Inner P S) :=
  match inner.pruneEdgesAfter with
  | none => pure inner
  | some pruneEdgesAfter => do
    let pruneNoncesOlderThan := ((now - pruneEdgesAfter) % 2 ^ 64).toNat
    let (peerDistances, peersToRemove) := inner.peerDistances.foldl (fun (kept, expired) (peer, entry) =>
        let entry := if entry.minNonce < pruneNoncesOlderThan then
            match inner.edgeCache.getMinNonce peer with
            | some refreshedMinNonce => { entry with minNonce := refreshedMinNonce }
            | none => entry
          else entry
        (kept ++ [(peer, entry)], if entry.minNonce < pruneNoncesOlderThan then expired ++ [peer] else expired))
      ([], [])
    let inner ← peersToRemove.foldlM removeDirectPeer { inner with peerDistances }
    pure { inner with
      localEdges := fun peer => (inner.localEdges peer).filter (·.nonce ≥ pruneNoncesOlderThan),
      edgeCache := inner.edgeCache.pruneOldEdges pruneNoncesOlderThan }

section
attribute [local simp] pruneExpiredPeerDistances
end

/-- `construct_distance_vector_message`. -/
def constructDistanceVectorMessage (inner : Inner P S) (distances : List (P × Nat)) :
    Option (DistanceVector P S) := do
  let edges ← inner.edgeCache.constructSpanningTree distances
  pure ⟨inner.nodeId, distances.map fun (destination, distance) => ⟨destination, distance⟩, edges⟩

/-- `update_distances`: new distances, as a map, are stored with a vector that advertises them. -/
def updateDistances (inner : Inner P S) (distances : List (P × Nat)) : Option (DistanceVector P S) × Inner P S :=
  if inner.myDistances.isPerm distances then (none, inner)
  else
    match inner.constructDistanceVectorMessage distances with
    | none => (none, inner)
    | some distanceVector =>
      (some distanceVector, { inner with myDistances := distances, myDistanceVector := distanceVector })

/-- `compute_routes`: the next hops, and the vector to broadcast if the distances changed. -/
def computeRoutes [Inhabited S] (inner : Inner P S) (now : Int) :
    Except Panic ((List (P × List P) × Option (DistanceVector P S)) × Inner P S) := do
  let inner ← inner.pruneExpiredPeerDistances now
  let ((nextHops, distances), inner) ← inner.computeNextHops
  let (toBroadcast, inner) := inner.updateDistances distances
  pure ((nextHops, toBroadcast), inner)

section
attribute [local simp] computeRoutes
end

/-- A batch of active edges whose nonces are all known passes with nothing verified. -/
theorem verifyAndCacheEdgeNonces_of_known (inner : Inner P S) {edges : List (Edge P S)}
    (known : ∀ edge ∈ edges, edge.edgeType = .active ∧ inner.edgeCache.hasEdgeNonceOrNewer edge = true) :
    inner.verifyAndCacheEdgeNonces verifySignature edges = (true, inner) := by
  have allActive : (edges.any fun edge => edge.edgeType != .active) = false := by
    simpa using fun edge member => (known edge member).1
  have noneNew : (edges.filter fun edge => !inner.edgeCache.hasEdgeNonceOrNewer edge) = [] := by
    simpa using fun edge member => (known edge member).2
  rw [verifyAndCacheEdgeNonces, if_neg (by simp [allActive]), noneNew]
  rfl

/-- A new active edge that verifies passes, and its nonce is stored. -/
theorem verifyAndCacheEdgeNonces_of_new (inner : Inner P S) {edge : Edge P S}
    (active : edge.edgeType = .active) (fresh : inner.edgeCache.hasEdgeNonceOrNewer edge = false)
    (verified : edge.verify verifySignature = true) :
    inner.verifyAndCacheEdgeNonces verifySignature [edge] =
      (true, { inner with edgeCache := inner.edgeCache.writeVerifiedNonce edge }) := by
  simp [verifyAndCacheEdgeNonces, active, fresh, verified]

section Link

/-! A link: the local node and one peer joined by one edge, the peer's whole tree, with the
ids 0 and 1. -/

variable {localNode peer : P} {edge : Edge P S} {edgeCache : EdgeCache P S}

/-- The two peers of the edge, whichever way it is keyed, become each other's neighbours. -/
theorem addAdjacency_link (joins : edge.key = (localNode, peer) ∨ edge.key = (peer, localNode))
    (atLocal : edgeCache.p2id.lookup localNode = some 0) (atPeer : edgeCache.p2id.lookup peer = some 1) :
    addAdjacency edgeCache [[], []] edge = .ok [[1], [0]] := by
  rcases joins with keyed | keyed
  · simp [addAdjacency, keyed, EdgeCache.getId_of_lookup atLocal, EdgeCache.getId_of_lookup atPeer,
      indexModify_of_lt]
  · simp [addAdjacency, keyed, EdgeCache.getId_of_lookup atLocal, EdgeCache.getId_of_lookup atPeer,
      indexModify_of_lt]

/-- The search from the peer reaches the local node in one step, through itself. -/
theorem search_link : Loop.run (searchPass [[1], [0]]) searchVariant (searchPass_decreases [[1], [0]])
    ⟨[1], [none, some 0], [none, none]⟩ = .ok ⟨[], [some 1, some 0], [some 0, none]⟩ := by
  rw [Loop.run_of_continue (show searchPass [[1], [0]] ⟨[1], [none, some 0], [none, none]⟩ =
      .ok (some ⟨[0], [some 1, some 0], [some 0, none]⟩) from rfl),
    Loop.run_of_continue (show searchPass [[1], [0]] ⟨[0], [some 1, some 0], [some 0, none]⟩ =
      .ok (some ⟨[], [some 1, some 0], [some 0, none]⟩) from rfl)]
  exact Loop.run_of_break rfl

/-- The tree of the link is a tree: the local node is at 1 from the peer, its first step
itself. -/
theorem calculateTreeDistances_link (inner : Inner P S)
    (joins : edge.key = (localNode, peer) ∨ edge.key = (peer, localNode))
    (created : inner.edgeCache.createIdsForTree peer [edge] = .ok edgeCache)
    (atLocal : edgeCache.p2id.lookup localNode = some 0) (atPeer : edgeCache.p2id.lookup peer = some 1)
    (two : edgeCache.maxId = 2) :
    inner.calculateTreeDistances peer [edge] =
      .ok (some ([some 1, some 0], [some 0, none]), { inner with edgeCache }) := by
  have adjacency : [edge].foldlM (addAdjacency edgeCache) [[], []] = .ok [[1], [0]] := by
    rw [List.foldlM_cons, addAdjacency_link joins atLocal atPeer]
    rfl
  have rooted : indexSet [none, none] 1 (some 0) = .ok [none, some 0] := indexSet_of_lt _ (by decide)
  simp only [calculateTreeDistances, created, EdgeCache.getId_of_lookup atPeer, two, Except.ok_bind,
    List.replicate_succ, List.replicate_zero, adjacency, rooted, search_link]
  rfl

/-- The vector of the link's peer: itself at `m`, the local node at 1. -/
theorem advertiseDistances_link (m : Nat) (atLocal : edgeCache.p2id.lookup localNode = some 0)
    (atPeer : edgeCache.p2id.lookup peer = some 1) (two : edgeCache.maxId = 2) :
    advertiseDistances edgeCache [⟨peer, m⟩, ⟨localNode, 1⟩] = .ok ([some 1, some m], edgeCache) := by
  simp [advertiseDistances, two, EdgeCache.getOrCreateId_of_lookup atLocal,
    EdgeCache.getOrCreateId_of_lookup atPeer, indexSet_of_lt]

/-- Any distance of the peer to itself is at least the tree's, 0. -/
theorem isConsistent_link (m : Nat) : isConsistent 2 [some 1, some m] [some 1, some 0] = .ok true := by
  simp [isConsistent, List.range_succ, index_of_lt]

/-- No route of the link goes through the local node. -/
theorem pruneLocalRoutes_link (advertised : List (Option Nat)) :
    pruneLocalRoutes 2 [some 0, none] advertised = .ok advertised := by
  simp [pruneLocalRoutes, List.range_succ, index_of_lt, EdgeCache.getLocalNodeId]

/-- The link's peer advertising itself at any distance `m`, with the link as its tree, passes
the validation whenever the nonce of the edge is known. -/
theorem validateRoutingDistances_link (inner : Inner P S) (m : Nat)
    (joins : edge.key = (localNode, peer) ∨ edge.key = (peer, localNode))
    (active : edge.edgeType = .active) (known : inner.edgeCache.hasEdgeNonceOrNewer edge = true)
    (created : inner.edgeCache.createIdsForTree peer [edge] = .ok edgeCache)
    (atLocal : edgeCache.p2id.lookup localNode = some 0) (atPeer : edgeCache.p2id.lookup peer = some 1)
    (two : edgeCache.maxId = 2) :
    inner.validateRoutingDistances verifySignature ⟨peer, [⟨peer, m⟩, ⟨localNode, 1⟩], [edge]⟩ =
      .ok (some [some 1, some m], { inner with edgeCache }) := by
  have verified := inner.verifyAndCacheEdgeNonces_of_known verifySignature
    (fun e (member : e ∈ [edge]) => by
      rw [List.mem_singleton.mp member]
      exact ⟨active, known⟩)
  simp only [validateRoutingDistances, Edge.deduplicate_singleton, ne_eq, not_true_eq_false, if_false,
    verified, Bool.not_true, Bool.false_eq_true]
  simp only [calculateTreeDistances_link inner joins created atLocal atPeer two, Except.ok_bind,
    advertiseDistances_link m atLocal atPeer two, two, isConsistent_link, pruneLocalRoutes_link]
  rfl

/-- The tree edge of a vector whose tree is the link is the link. -/
theorem find_link (joins : edge.key = (localNode, peer) ∨ edge.key = (peer, localNode)) :
    [edge].find? (fun e => e.containsPeer localNode && e.containsPeer peer) = some edge := by
  rcases joins with keyed | keyed <;> simp [Edge.containsPeer, keyed]

/-- The link's peer, whose local edge is the link, has its distances stored when it does not
place the local node further than 1. -/
theorem storeValidatedPeerDistances_link (inner : Inner P S) (m : Nat)
    (distances : List (AdvertisedPeerDistance P)) {edgeCache' : EdgeCache P S}
    (joins : edge.key = (localNode, peer) ∨ edge.key = (peer, localNode))
    (active : edge.edgeType = .active) (here : inner.nodeId = localNode)
    (direct : inner.localEdges peer = some edge)
    (updated : inner.edgeCache.updateTree peer [edge] = .ok edgeCache') :
    inner.storeValidatedPeerDistances ⟨peer, distances, [edge]⟩ [some 1, some m] =
      .ok (true, { inner with
        edgeCache := edgeCache',
        peerDistances := insertEntry inner.peerDistances peer ⟨[some 1, some m], edge.nonce⟩ }) := by
  have kept : Function.update inner.localEdges peer (some edge) = inner.localEdges :=
    Function.update_eq_self_iff.mpr direct.symm
  have notRemoved : (edge.edgeType = .removed) = False := by simp [active]
  have atLocal : index [some 1, some m] EdgeCache.getLocalNodeId = .ok (some 1) := index_of_lt (by simp [EdgeCache.getLocalNodeId])
  simp only [storeValidatedPeerDistances, atLocal, Except.ok_bind, here, find_link joins, direct, lt_irrefl,
    if_false, kept]
  simp [notRemoved, storeSpanningTree, updated]

/-- The node `localNode` with one direct peer `peer`, linked by `edge`, which is the peer's whole
tree, and the distances `distance` stored for the peer. -/
def linked (localNode peer : P) (edge : Edge P S) (pruneEdgesAfter : Option Nat)
    (distance : List (Option Nat)) : Inner P S where
  nodeId := localNode
  pruneEdgesAfter := pruneEdgesAfter
  edgeCache := ⟨Function.update (fun _ => none) (EdgeKey.ofPeers edge.key) (some edge.nonce),
    [(EdgeKey.ofPeers edge.key, ⟨edge, 1⟩)], Function.update (fun _ => none) peer (some [EdgeKey.ofPeers edge.key]),
    [(localNode, 0), (peer, 1)], [1, 1], []⟩
  localEdges := Function.update (fun _ => none) peer (some edge)
  peerDistances := [(peer, ⟨distance, edge.nonce⟩)]
  myDistances := [(localNode, 0)]
  myDistanceVector := ⟨localNode, [⟨localNode, 0⟩], []⟩

section
attribute [local simp] linked
end

/-- The two ids of a link, whichever way its edge is keyed, raise the degrees 0, 0 to 1, 1. -/
theorem degrees_link {edgeCache : EdgeCache P S}
    (joins : edge.key = (localNode, peer) ∨ edge.key = (peer, localNode))
    (atLocal : edgeCache.p2id.lookup localNode = some 0) (atPeer : edgeCache.p2id.lookup peer = some 1) :
    ∃ id0 id1, edgeCache.p2id.lookup edge.key.1 = some id0 ∧ edgeCache.p2id.lookup edge.key.2 = some id1 ∧
      id0 < 2 ∧ id1 < 2 ∧ ([0, 0].modify id0 (· + 1)).modify id1 (· + 1) = [1, 1] := by
  rcases joins with keyed | keyed
  · exact ⟨0, 1, by rw [keyed]; exact atLocal, by rw [keyed]; exact atPeer, by decide, by decide, rfl⟩
  · exact ⟨1, 0, by rw [keyed]; exact atPeer, by rw [keyed]; exact atLocal, by decide, by decide, rfl⟩

/-- A fresh node to which a peer connects over a valid edge verifies the edge and stores the
link, with the peer at 0 and the local node at 1 from it. -/
theorem addOrUpdateDirectPeer_link (localNode peer : P) (edge : Edge P S) (pruneEdgesAfter : Option Nat)
    (distinct : localNode ≠ peer) (joins : edge.key = (localNode, peer) ∨ edge.key = (peer, localNode))
    (active : edge.edgeType = .active) (verified : edge.verify verifySignature = true) :
    (Inner.new localNode pruneEdgesAfter : Inner P S).addOrUpdateDirectPeer verifySignature peer edge =
      .ok (true, linked localNode peer edge pruneEdgesAfter [some 1, some 0]) := by
  have unknown : (Inner.new localNode pruneEdgesAfter : Inner P S).edgeCache.hasEdgeNonceOrNewer edge = false := rfl
  have cached := verifyAndCacheEdgeNonces_of_new verifySignature (Inner.new localNode pruneEdgesAfter) active
    unknown verified
  -- the node once the edge is verified and is its local edge
  let connected : Inner P S := ⟨localNode, pruneEdgesAfter,
    ⟨Function.update (fun _ => none) (EdgeKey.ofPeers edge.key) (some edge.nonce), [], fun _ => none,
      [(localNode, 0)], [0], []⟩,
    Function.update (fun _ => none) peer (some edge), [], [(localNode, 0)], ⟨localNode, [⟨localNode, 0⟩], []⟩⟩
  have known : connected.edgeCache.hasEdgeNonceOrNewer edge = true := by
    simp [connected, EdgeCache.hasEdgeNonceOrNewer]
  -- the peer gets the id 1
  have missing : connected.edgeCache.p2id.lookup peer = none := by
    simp [connected, List.lookup_cons, beq_false_of_ne (Ne.symm distinct)]
  let withIds : EdgeCache P S := { connected.edgeCache with
    degree := connected.edgeCache.degree ++ [0],
    p2id := insertEntry connected.edgeCache.p2id peer connected.edgeCache.maxId }
  have atLocal : withIds.p2id.lookup localNode = some 0 := by
    simp [withIds, connected, lookup_insertEntry_of_ne _ distinct]
  have atPeer : withIds.p2id.lookup peer = some 1 := lookup_insertEntry_self _ _ _
  have created : connected.edgeCache.createIdsForTree peer [edge] = .ok withIds := by
    refine EdgeCache.createIdsForTree_of_root (EdgeCache.getOrCreateId_of_fresh missing rfl) ?_
    intro e member
    rw [List.mem_singleton.mp member]
    rcases joins with keyed | keyed <;> simp [keyed, atLocal, atPeer]
  have validated := connected.validateRoutingDistances_link verifySignature 0 joins active known created
    atLocal atPeer rfl
  -- the link is stored
  obtain ⟨id0, id1, found0, found1, in0, in1, raised⟩ := degrees_link joins atLocal atPeer
  have updated : withIds.updateTree peer [edge] = _ := EdgeCache.updateTree_single_first rfl rfl found0 found1 in0 in1
  have stored := storeValidatedPeerDistances_link { connected with edgeCache := withIds } 0
    [⟨peer, 0⟩, ⟨localNode, 1⟩] joins active rfl (by simp [connected]) updated
  have handled : connected.handleDistanceVector verifySignature ⟨peer, [⟨peer, 0⟩, ⟨localNode, 1⟩], [edge]⟩ =
      .ok (true, linked localNode peer edge pruneEdgesAfter [some 1, some 0]) := by
    simp only [handleDistanceVector, if_neg (show ¬connected.nodeId = peer from distinct), validated,
      Except.ok_bind, stored, Bool.not_true, Bool.false_eq_true, if_false, Option.isSome_some]
    have listed : withIds.p2id = [(localNode, 0), (peer, 1)] := by
      simp [withIds, connected, insertEntry, removeEntry, distinct, EdgeCache.maxId]
    have degrees : (withIds.degree.modify id0 (· + 1)).modify id1 (· + 1) = [1, 1] := raised
    rw [listed, degrees]
    rfl
  simp only [addOrUpdateDirectPeer, if_neg (show ¬edge.edgeType ≠ .active from not_not.mpr active), unknown,
    cached, Bool.false_eq_true, if_false, Bool.not_true]
  -- the peer has no distances yet: the node takes the link as the peer's first vector
  have absent : ((Inner.new localNode pruneEdgesAfter : Inner P S).peerDistances.lookup peer).isNone = true := rfl
  rw [if_pos absent]
  show (do
      let handled ← connected.handleDistanceVector verifySignature ⟨peer, [⟨peer, 0⟩, ⟨localNode, 1⟩], [edge]⟩
      pure (true, handled.2)) = _
  rw [handled]
  rfl

/-- The linked peer advertising itself at any distance `m`, with the link as its tree: the vector
is valid, and its distances take the place of the stored ones. -/
theorem handleDistanceVector_linked (localNode peer : P) (edge : Edge P S) (pruneEdgesAfter : Option Nat)
    (distance : List (Option Nat)) (m : Nat) (distinct : localNode ≠ peer)
    (joins : edge.key = (localNode, peer) ∨ edge.key = (peer, localNode)) (active : edge.edgeType = .active) :
    (linked localNode peer edge pruneEdgesAfter distance).handleDistanceVector verifySignature
        ⟨peer, [⟨peer, m⟩, ⟨localNode, 1⟩], [edge]⟩ =
      .ok (true, linked localNode peer edge pruneEdgesAfter [some 1, some m]) := by
  let node : Inner P S := linked localNode peer edge pruneEdgesAfter distance
  have known : node.edgeCache.hasEdgeNonceOrNewer edge = true := by
    simp [node, linked, EdgeCache.hasEdgeNonceOrNewer]
  have atLocal : node.edgeCache.p2id.lookup localNode = some 0 := by simp [node, linked]
  have atPeer : node.edgeCache.p2id.lookup peer = some 1 := by
    simp [node, linked, List.lookup_cons, beq_false_of_ne (Ne.symm distinct)]
  -- the tree's peers have their ids already
  have created : node.edgeCache.createIdsForTree peer [edge] = .ok node.edgeCache := by
    refine EdgeCache.createIdsForTree_of_root (EdgeCache.getOrCreateId_of_lookup atPeer) ?_
    intro e member
    rw [List.mem_singleton.mp member]
    rcases joins with keyed | keyed <;> simp [keyed, atLocal, atPeer]
  have validated := node.validateRoutingDistances_link verifySignature m joins active known created
    atLocal atPeer rfl
  -- the same tree is stored again
  have updated : node.edgeCache.updateTree peer [edge] = _ :=
    EdgeCache.updateTree_single_again (by simp [node, linked]) (by simp [node, linked])
  have stored := storeValidatedPeerDistances_link { node with edgeCache := node.edgeCache } m
    [⟨peer, m⟩, ⟨localNode, 1⟩] joins active rfl (by simp [node, linked]) updated
  show node.handleDistanceVector verifySignature ⟨peer, [⟨peer, m⟩, ⟨localNode, 1⟩], [edge]⟩ = _
  simp only [handleDistanceVector, if_neg (show ¬node.nodeId = peer from distinct), validated,
    Except.ok_bind, stored, Bool.not_true, Bool.false_eq_true, if_false, Option.isSome_some]
  simp only [node, linked, insertEntry_singleton_self, Function.update_idem]
  rfl

/-- Pruning keeps the linked peer's distances while the edge is younger than the pruning age. -/
theorem pruneExpiredPeerDistances_linked [Inhabited S] (localNode peer : P) (edge : Edge P S)
    (pruneEdgesAfter : Option Nat) (distance : List (Option Nat)) (now : Int)
    (fresh : ∀ age, pruneEdgesAfter = some age → ((now - age) % 2 ^ 64).toNat ≤ edge.nonce) :
    ∃ pruned, (linked localNode peer edge pruneEdgesAfter distance).pruneExpiredPeerDistances now = .ok pruned ∧
      pruned.peerDistances = [(peer, ⟨distance, edge.nonce⟩)] ∧ pruned.edgeCache.maxId = 2 := by
  cases pruning : pruneEdgesAfter with
  | none => exact ⟨_, rfl, rfl, rfl⟩
  | some age =>
    have recent : ¬edge.nonce < ((now - age) % 2 ^ 64).toNat := Nat.not_lt.mpr (fresh age pruning)
    simp only [pruneExpiredPeerDistances, linked, List.foldl_cons, List.foldl_nil, if_neg recent,
      List.nil_append, List.foldlM_nil, Except.pure_eq_ok, Except.ok_bind]
    exact ⟨_, rfl, rfl, rfl⟩

/-- A linked peer stored at `u32::MAX` from itself makes the next computation of the routes
panic. -/
theorem computeRoutes_linked_max [Inhabited S] (localNode peer : P) (edge : Edge P S)
    (pruneEdgesAfter : Option Nat) (now : Int)
    (fresh : ∀ age, pruneEdgesAfter = some age → ((now - age) % 2 ^ 64).toNat ≤ edge.nonce) :
    (linked localNode peer edge pruneEdgesAfter [some 1, some (2 ^ 32 - 1)]).computeRoutes now =
      .error ⟨"attempt to add with overflow"⟩ := by
  obtain ⟨pruned, done, kept, two⟩ := pruneExpiredPeerDistances_linked localNode peer edge pruneEdgesAfter
    [some 1, some (2 ^ 32 - 1)] now fresh
  have stored : (peer, (⟨[some 1, some (2 ^ 32 - 1)], edge.nonce⟩ : PeerDistances)) ∈ pruned.peerDistances := by
    simp [kept]
  have overflowed := pruned.computeNextHops_overflows stored (show 1 < pruned.edgeCache.maxId by rw [two]; decide) rfl
  simp only [computeRoutes, done, Except.ok_bind, overflowed, Except.error_bind]

/-- A fresh node to which a peer connects over a valid edge, and which then advertises itself at
distance `m` with the link as its tree, accepts both updates and stores `m`. -/
theorem handleNetworkChanges_link [Inhabited S] (localNode peer : P) (edge : Edge P S)
    (pruneEdgesAfter : Option Nat) (m : Nat) (distinct : localNode ≠ peer)
    (joins : edge.key = (localNode, peer) ∨ edge.key = (peer, localNode))
    (active : edge.edgeType = .active) (verified : edge.verify verifySignature = true) :
    (Inner.new localNode pruneEdgesAfter : Inner P S).handleNetworkChanges verifySignature
        [.peerConnected peer edge, .peerAdvertisedDistances ⟨peer, [⟨peer, m⟩, ⟨localNode, 1⟩], [edge]⟩] =
      .ok ([true, true], linked localNode peer edge pruneEdgesAfter [some 1, some m]) := by
  simp only [handleNetworkChanges, List.foldlM_cons, List.foldlM_nil, handleNetworkChange,
    addOrUpdateDirectPeer_link verifySignature localNode peer edge pruneEdgesAfter distinct joins active verified,
    handleDistanceVector_linked verifySignature localNode peer edge pruneEdgesAfter _ m distinct joins active,
    Except.pure_eq_ok, Except.ok_bind]
  rfl

end Link

/-- A direct peer of a fresh node, linked to it by a valid edge, advertises itself at distance
`u32::MAX`, with the link as its tree. The node accepts both updates, since the validation bounds
an advertised distance only from below, and the next computation of the routes panics on the
overflow of `peer_distance + 1` in `compute_next_hops`; with `panic = "abort"` that ends the
node. -/
theorem computeRoutes_overflows_after_advertisement [Inhabited S] (localNode peer : P) (edge : Edge P S)
    (pruneEdgesAfter : Option Nat) (now : Int) (distinct : localNode ≠ peer)
    (joins : edge.key = (localNode, peer) ∨ edge.key = (peer, localNode))
    (active : edge.edgeType = .active) (verified : edge.verify verifySignature = true)
    (fresh : ∀ age, pruneEdgesAfter = some age → ((now - age) % 2 ^ 64).toNat ≤ edge.nonce) :
    ∃ inner, (Inner.new localNode pruneEdgesAfter : Inner P S).handleNetworkChanges verifySignature
        [.peerConnected peer edge, .peerAdvertisedDistances ⟨peer, [⟨peer, 2 ^ 32 - 1⟩, ⟨localNode, 1⟩], [edge]⟩] =
        .ok ([true, true], inner) ∧
      inner.computeRoutes now = .error ⟨"attempt to add with overflow"⟩ :=
  ⟨_, handleNetworkChanges_link verifySignature localNode peer edge pruneEdgesAfter _ distinct joins active verified,
    computeRoutes_linked_max localNode peer edge pruneEdgesAfter now fresh⟩

end Inner

/-- Node 0 and peer 1, in a network where a signature is its signer's own id, linked by the edge
of nonce 1 that both signed. -/
theorem computeRoutes_overflows_after_advertisement_zeroOne :
    (0 : Nat) ≠ 1 ∧ (⟨(0, 1), 1, 0, 1, none⟩ : Edge Nat Nat).edgeType = .active ∧
      (⟨(0, 1), 1, 0, 1, none⟩ : Edge Nat Nat).verify (fun signature _ peer => signature == peer) = true ∧
      ∃ inner, (Inner.new 0 none : Inner Nat Nat).handleNetworkChanges (fun signature _ peer => signature == peer)
          [.peerConnected 1 ⟨(0, 1), 1, 0, 1, none⟩,
            .peerAdvertisedDistances ⟨1, [⟨1, 2 ^ 32 - 1⟩, ⟨0, 1⟩], [⟨(0, 1), 1, 0, 1, none⟩]⟩] =
          .ok ([true, true], inner) ∧
        inner.computeRoutes 0 = .error ⟨"attempt to add with overflow"⟩ :=
  ⟨by decide, rfl, by decide,
    Inner.computeRoutes_overflows_after_advertisement _ 0 1 _ none 0 (by decide) (.inl rfl) rfl (by decide)
      (fun _ unset => by cases unset)⟩

end Nearcore.Network.GraphV2
