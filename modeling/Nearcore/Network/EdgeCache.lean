import Nearcore.Network.Routing
import Nearcore.Library.Collections

/-! The cache of known edges of the distance-vector routing (`routing/edge_cache/mod.rs`): the
nonce verified for each pair of peers, the edges of the spanning trees that the direct peers
advertised with the number of trees that hold each, the latest tree of each peer, and the ids of
the peers with the number of active edges at each id and the ids free for reuse. A `HashMap`
that is iterated (the ids of the peers, the active edges) is the list of its entries; one that
is only read and written at keys is a function. A `Vec` indexed by an id is checked as Rust
checks it. Degrees and reference counts, which count edges held in memory, are natural
numbers. -/
namespace Nearcore.Network

open Unsigned Collections

variable {P S : Type} [LinearOrder P]

/-- `EdgeKey`: the two peers of an edge, the key of the maps of the cache. -/
structure EdgeKey (P : Type) where
  peer0 : P
  peer1 : P
  deriving DecidableEq

/-- `EdgeKey::from`. The source means to put the peers in order, but the literal of its second
branch names its fields, so that both branches keep the order of the pair. -/
def EdgeKey.ofPeers (peers : P × P) : EdgeKey P :=
  let (peer0, peer1) := peers
  if peer0 < peer1 then { peer0, peer1 } else { peer1, peer0 }

section
attribute [local simp] EdgeKey.ofPeers
end

/-- The key of a pair is the pair, in its own order: the key is ordered only when the edge is. -/
@[simp] theorem EdgeKey.ofPeers_eq (peers : P × P) : EdgeKey.ofPeers peers = ⟨peers.1, peers.2⟩ := by
  obtain ⟨peer0, peer1⟩ := peers
  exact ite_self _

/-- `ActiveEdge`: an edge of the stored trees, with the number of trees that hold it. -/
structure ActiveEdge (P S : Type) where
  edge : Edge P S
  refcount : Nat

/-- `EdgeCache`. -/
structure EdgeCache (P S : Type) where
  verifiedNonces : EdgeKey P → Option Nat
  activeEdges : List (EdgeKey P × ActiveEdge P S)
  activeTrees : P → Option (List (EdgeKey P))
  p2id : List (P × Nat)
  degree : List Nat
  unused : List Nat

namespace EdgeCache

/-- `EdgeCache::new`: the local node alone, with id 0. -/
def new (localNodeId : P) : EdgeCache P S :=
  ⟨fun _ => none, [], fun _ => none, [(localNodeId, 0)], [0], []⟩

section
attribute [local simp] new
end

/-- `write_verified_nonce`. -/
def writeVerifiedNonce (cache : EdgeCache P S) (edge : Edge P S) : EdgeCache P S :=
  { cache with
    verifiedNonces := Function.update cache.verifiedNonces (EdgeKey.ofPeers edge.key) (some edge.nonce) }

/-- `has_edge_nonce_or_newer`. -/
def hasEdgeNonceOrNewer (cache : EdgeCache P S) (edge : Edge P S) : Bool :=
  (cache.verifiedNonces (EdgeKey.ofPeers edge.key)).any fun cachedNonce => cachedNonce ≥ edge.nonce

section
attribute [local simp] hasEdgeNonceOrNewer
end

/-- `get_id`, which unwraps. -/
def getId (cache : EdgeCache P S) (peer : P) : Except Panic Nat := unwrap (cache.p2id.lookup peer)

section
attribute [local simp] getId
end

/-- `get_local_node_id`. -/
def getLocalNodeId : Nat := 0

section
attribute [local simp] getLocalNodeId
end

/-- `max_id`: one past the largest id. -/
def maxId (cache : EdgeCache P S) : Nat := cache.degree.length

section
attribute [local simp] maxId
end

/-- `get_or_create_id`: the id of the peer, or the last freed one, or a new one past the others. -/
def getOrCreateId (cache : EdgeCache P S) (peer : P) : Except Panic (Nat × EdgeCache P S) :=
  match cache.p2id.lookup peer with
  | some id => pure (id, cache)
  | none =>
    match cache.unused.getLast? with
    | some id => do
      if (← index cache.degree id) = 0 then
        pure (id, { cache with unused := cache.unused.dropLast, p2id := insertEntry cache.p2id peer id })
      else throw ⟨"assertion failed: self.degree[id as usize] == 0"⟩
    | none =>
      let id := cache.degree.length
      pure (id, { cache with degree := cache.degree ++ [0], p2id := insertEntry cache.p2id peer id })

section
attribute [local simp] getOrCreateId
end

/-- One edge of `create_ids_for_tree`: ids for its two peers. -/
def createIdsForEdge (cache : EdgeCache P S) (edge : Edge P S) : Except Panic (EdgeCache P S) := do
  let (_, cache) ← cache.getOrCreateId edge.key.1
  let (_, cache) ← cache.getOrCreateId edge.key.2
  pure cache

section
attribute [local simp] createIdsForEdge
end

/-- `create_ids_for_tree`: ids for the root and the two peers of each edge. -/
def createIdsForTree (cache : EdgeCache P S) (root : P) (edges : List (Edge P S)) :
    Except Panic (EdgeCache P S) := do
  let (_, cache) ← cache.getOrCreateId root
  edges.foldlM createIdsForEdge cache

section
attribute [local simp] createIdsForTree
end

/-- The `while` of `free_unused_ids`: the bound comes down past ids of degree 0, never below 1. -/
def shrinkMaxId (degree : List Nat) : Nat → Except Panic Nat
  | maxId + 2 => do
    if (← index degree (maxId + 1)) = 0 then shrinkMaxId degree (maxId + 1) else pure (maxId + 2)
  | maxId => pure maxId

/-- `free_unused_ids`: the peers of degree 0 but the local node lose their ids, the trailing ids
of degree 0 are dropped, and the free ids are those of degree 0 that are left. -/
def freeUnusedIds (cache : EdgeCache P S) : Except Panic (EdgeCache P S) := do
  if getLocalNodeId ≠ 0 then throw ⟨"assertion failed: self.get_local_node_id() == 0"⟩
  let p2id ← cache.p2id.filterM fun entry => do
    if entry.2 = 0 then pure true else pure ((← index cache.degree entry.2) != 0)
  let maxId ← shrinkMaxId cache.degree cache.maxId
  let degree := cache.degree.take maxId
  let unused ← (List.range' 1 (degree.length - 1)).filterM fun id => do pure ((← index degree id) == 0)
  pure { cache with p2id, degree, unused }

/-- `increment_degrees_for_key`, which gives ids to the peers that have none. -/
def incrementDegreesForKey (cache : EdgeCache P S) (key : EdgeKey P) : Except Panic (EdgeCache P S) := do
  let (id0, cache) ← cache.getOrCreateId key.peer0
  let (id1, cache) ← cache.getOrCreateId key.peer1
  let degree ← indexModify cache.degree id0 (· + 1)
  let degree ← indexModify degree id1 (· + 1)
  pure { cache with degree }

section
attribute [local simp] incrementDegreesForKey
end

/-- `decrement_degree`: an id other than the local node's whose degree reaches 0 is freed. -/
def decrementDegree (cache : EdgeCache P S) (peerId : P) : Except Panic (EdgeCache P S) := do
  let id ← cache.getId peerId
  if ¬(← index cache.degree id) > 0 then throw ⟨"assertion failed: self.degree[id] > 0"⟩
  let degree ← indexModify cache.degree id (· - 1)
  if (← index degree id) = 0 ∧ id ≠ 0 then
    pure { cache with degree, p2id := removeEntry cache.p2id peerId, unused := cache.unused ++ [id] }
  else pure { cache with degree }

/-- `decrement_degrees_for_key`. -/
def decrementDegreesForKey (cache : EdgeCache P S) (key : EdgeKey P) : Except Panic (EdgeCache P S) := do
  let cache ← cache.decrementDegree key.peer0
  cache.decrementDegree key.peer1

/-- `insert_active_edge`: one more tree holds the edge, the newer version of it is kept, and its
first copy raises the degrees of its peers. -/
def insertActiveEdge (cache : EdgeCache P S) (edge : Edge P S) : Except Panic (EdgeCache P S) :=
  let key := EdgeKey.ofPeers edge.key
  match cache.activeEdges.lookup key with
  | some val =>
    let val := if edge.nonce > val.edge.nonce then { val with edge } else val
    pure { cache with activeEdges := insertEntry cache.activeEdges key { val with refcount := val.refcount + 1 } }
  | none => ({ cache with activeEdges := insertEntry cache.activeEdges key ⟨edge, 1⟩ }).incrementDegreesForKey key

section
attribute [local simp] insertActiveEdge
end

/-- `remove_active_edge`: one tree less holds the edge, and its last copy lowers the degrees of
its peers. -/
def removeActiveEdge (cache : EdgeCache P S) (key : EdgeKey P) : Except Panic (EdgeCache P S) :=
  match cache.activeEdges.lookup key with
  | some val =>
    if ¬val.refcount > 0 then throw ⟨"assertion failed: val.refcount > 0"⟩
    else if val.refcount = 1 then
      ({ cache with activeEdges := removeEntry cache.activeEdges key }).decrementDegreesForKey key
    else
      pure { cache with activeEdges := insertEntry cache.activeEdges key { val with refcount := val.refcount - 1 } }
  | none => throw ⟨"assertion failed: false"⟩

section
attribute [local simp] removeActiveEdge
end

/-- `update_tree`: the edges of the new tree are added before those of the old one are
removed. -/
def updateTree (cache : EdgeCache P S) (peerId : P) (tree : List (Edge P S)) : Except Panic (EdgeCache P S) := do
  let cache ← tree.foldlM insertActiveEdge cache
  let edgeKeys := tree.map fun edge => EdgeKey.ofPeers edge.key
  let old := cache.activeTrees peerId
  let cache := { cache with activeTrees := Function.update cache.activeTrees peerId (some edgeKeys) }
  match old with
  | some oldEdgeKeys => oldEdgeKeys.foldlM removeActiveEdge cache
  | none => pure cache

section
attribute [local simp] updateTree
end

/-- `get_min_nonce`: the least verified nonce of the peer's tree, if every edge of it has one. -/
def getMinNonce (cache : EdgeCache P S) (peerId : P) : Option Nat := do
  let edgeKeys ← cache.activeTrees peerId
  let minNonce ← edgeKeys.foldlM (fun (minNonce : Option Nat) key => do
      let nonce ← cache.verifiedNonces key
      pure (some (minNonce.elim nonce fun minVal => min minVal nonce))) none
  minNonce

/-- `remove_tree`. -/
def removeTree (cache : EdgeCache P S) (peerId : P) : Except Panic (EdgeCache P S) :=
  match cache.activeTrees peerId with
  | some edges => edges.foldlM removeActiveEdge { cache with activeTrees := Function.update cache.activeTrees peerId none }
  | none => pure cache

/-- `prune_old_edges`. -/
def pruneOldEdges (cache : EdgeCache P S) (pruneNoncesOlderThan : Nat) : EdgeCache P S :=
  { cache with verifiedNonces := fun key => (cache.verifiedNonces key).filter (· ≥ pruneNoncesOlderThan) }

/-- `construct_spanning_tree`: for each peer at a positive distance, the first active edge that
leads to it from a peer nearer, if every such peer has one and some peer is at distance 0. -/
def constructSpanningTree (cache : EdgeCache P S) (distance : List (P × Nat)) : Option (List (Edge P S)) :=
  let hasRoot := distance.any fun entry => entry.2 == 0
  let (edges, hasEdge) := cache.activeEdges.foldl (fun (edges, hasEdge) (edgeKey, activeEdge) =>
      match distance.lookup edgeKey.peer0, distance.lookup edgeKey.peer1 with
      | some dist0, some dist1 =>
        let (edges, hasEdge) :=
          if dist0 < dist1 ∧ edgeKey.peer1 ∉ hasEdge then (edges ++ [activeEdge.edge], hasEdge ++ [edgeKey.peer1])
          else (edges, hasEdge)
        if dist1 < dist0 ∧ edgeKey.peer0 ∉ hasEdge then (edges ++ [activeEdge.edge], hasEdge ++ [edgeKey.peer0])
        else (edges, hasEdge)
      | _, _ => (edges, hasEdge))
    (([] : List (Edge P S)), ([] : List P))
  if hasRoot ∧ hasEdge.length + 1 = distance.length then some edges else none

variable {cache cache' : EdgeCache P S} {peer : P} {id : Nat}

theorem getId_of_lookup (found : cache.p2id.lookup peer = some id) : cache.getId peer = .ok id := by
  rw [getId, found, unwrap_some]

theorem getOrCreateId_of_lookup (found : cache.p2id.lookup peer = some id) :
    cache.getOrCreateId peer = .ok (id, cache) := by
  rw [getOrCreateId, found]
  rfl

/-- A peer with no id, and no id free, gets the id past the others. -/
theorem getOrCreateId_of_fresh (missing : cache.p2id.lookup peer = none) (noneFree : cache.unused = []) :
    cache.getOrCreateId peer =
      .ok (cache.maxId, { cache with degree := cache.degree ++ [0], p2id := insertEntry cache.p2id peer cache.maxId }) := by
  rw [getOrCreateId, missing, noneFree]
  rfl

/-- Once the root has its id, a tree whose peers all have ids gives no more. -/
theorem createIdsForTree_of_root {root : P} {edges : List (Edge P S)} {rootId : Nat}
    (created : cache.getOrCreateId root = .ok (rootId, cache'))
    (known : ∀ edge ∈ edges, (cache'.p2id.lookup edge.key.1).isSome ∧ (cache'.p2id.lookup edge.key.2).isSome) :
    cache.createIdsForTree root edges = .ok cache' := by
  rw [createIdsForTree, created, Except.ok_bind]
  dsimp only
  obtain ⟨result, done, same⟩ := List.foldlM_of_invariant (I := fun _ c => c = cache') createIdsForEdge
    (fun edge => edge ∈ edges)
    (fun _ edge c member same => by
      subst same
      obtain ⟨id0, found0⟩ := Option.isSome_iff_exists.mp (known edge member).1
      obtain ⟨id1, found1⟩ := Option.isSome_iff_exists.mp (known edge member).2
      exact ⟨c, by simp [createIdsForEdge, getOrCreateId_of_lookup found0, getOrCreateId_of_lookup found1], rfl⟩)
    (fun _ member => member) [] cache' rfl
  rw [done, same]

/-- The degrees of the two peers of a key, both with ids in range, go up by one. -/
theorem incrementDegreesForKey_of_lookup {key : EdgeKey P} {id0 id1 : Nat}
    (found0 : cache.p2id.lookup key.peer0 = some id0) (found1 : cache.p2id.lookup key.peer1 = some id1)
    (in0 : id0 < cache.maxId) (in1 : id1 < cache.maxId) :
    cache.incrementDegreesForKey key =
      .ok { cache with degree := (cache.degree.modify id0 (· + 1)).modify id1 (· + 1) } := by
  have in1' : id1 < (cache.degree.modify id0 (· + 1)).length := by
    rw [List.length_modify]
    exact in1
  simp only [incrementDegreesForKey, getOrCreateId_of_lookup found0, getOrCreateId_of_lookup found1,
    Except.ok_bind, indexModify_of_lt _ in0, indexModify_of_lt _ in1']
  rfl

/-- An edge no tree holds yet is stored with one holder and raises the degrees of its peers. -/
theorem insertActiveEdge_of_fresh {edge : Edge P S}
    (missing : cache.activeEdges.lookup (EdgeKey.ofPeers edge.key) = none) :
    cache.insertActiveEdge edge =
      ({ cache with activeEdges := insertEntry cache.activeEdges (EdgeKey.ofPeers edge.key) ⟨edge, 1⟩ }).incrementDegreesForKey
        (EdgeKey.ofPeers edge.key) := by
  rw [insertActiveEdge, missing]

/-- An edge that trees hold already gets one holder more, and its version if newer. -/
theorem insertActiveEdge_of_lookup {edge : Edge P S} {val : ActiveEdge P S}
    (found : cache.activeEdges.lookup (EdgeKey.ofPeers edge.key) = some val) :
    cache.insertActiveEdge edge =
      .ok { cache with activeEdges := (insertEntry cache.activeEdges (EdgeKey.ofPeers edge.key)
        ⟨if edge.nonce > val.edge.nonce then edge else val.edge, val.refcount + 1⟩) } := by
  rw [insertActiveEdge, found]
  dsimp only
  split <;> rfl

/-- An edge that more than one tree holds loses one holder and stays. -/
theorem removeActiveEdge_of_shared {key : EdgeKey P} {val : ActiveEdge P S}
    (found : cache.activeEdges.lookup key = some val) (shared : 1 < val.refcount) :
    cache.removeActiveEdge key =
      .ok { cache with activeEdges := insertEntry cache.activeEdges key { val with refcount := val.refcount - 1 } } := by
  rw [removeActiveEdge, found]
  dsimp only
  rw [if_neg (by omega), if_neg (by omega)]
  rfl

/-- The first tree of a peer, one edge that no tree holds: the edge is stored with one holder,
the degrees of its peers go up, and the tree is the peer's. -/
theorem updateTree_single_first {edge : Edge P S} {id0 id1 : Nat}
    (missing : cache.activeEdges.lookup (EdgeKey.ofPeers edge.key) = none) (noTree : cache.activeTrees peer = none)
    (found0 : cache.p2id.lookup edge.key.1 = some id0) (found1 : cache.p2id.lookup edge.key.2 = some id1)
    (in0 : id0 < cache.maxId) (in1 : id1 < cache.maxId) :
    cache.updateTree peer [edge] = .ok { cache with
      activeEdges := insertEntry cache.activeEdges (EdgeKey.ofPeers edge.key) ⟨edge, 1⟩,
      degree := (cache.degree.modify id0 (· + 1)).modify id1 (· + 1),
      activeTrees := Function.update cache.activeTrees peer (some [EdgeKey.ofPeers edge.key]) } := by
  -- the cache with the edge stored has the ids of the cache
  have raised : ({ cache with activeEdges := insertEntry cache.activeEdges (EdgeKey.ofPeers edge.key) ⟨edge, 1⟩ } :
      EdgeCache P S).incrementDegreesForKey (EdgeKey.ofPeers edge.key) = _ :=
    incrementDegreesForKey_of_lookup (by simpa using found0) (by simpa using found1) in0 in1
  simp only [updateTree, List.foldlM_cons, List.foldlM_nil, insertActiveEdge_of_fresh missing, raised,
    Except.pure_eq_ok, Except.ok_bind, noTree]
  rfl

/-- The same tree of one edge, held once, stored again: the new tree holds the edge before the
old one lets it go, and the cache is as it was but for the order of its entries. -/
theorem updateTree_single_again {edge : Edge P S}
    (found : cache.activeEdges.lookup (EdgeKey.ofPeers edge.key) = some ⟨edge, 1⟩)
    (sameTree : cache.activeTrees peer = some [EdgeKey.ofPeers edge.key]) :
    cache.updateTree peer [edge] = .ok { cache with
      activeEdges := insertEntry (insertEntry cache.activeEdges (EdgeKey.ofPeers edge.key) ⟨edge, 2⟩)
        (EdgeKey.ofPeers edge.key) ⟨edge, 1⟩,
      activeTrees := Function.update cache.activeTrees peer (some [EdgeKey.ofPeers edge.key]) } := by
  -- the cache with the edge held twice and the new tree stored
  have released : ({ cache with
      activeEdges := insertEntry cache.activeEdges (EdgeKey.ofPeers edge.key) ⟨edge, 2⟩,
      activeTrees := Function.update cache.activeTrees peer (some [EdgeKey.ofPeers edge.key]) } :
      EdgeCache P S).removeActiveEdge (EdgeKey.ofPeers edge.key) = _ :=
    removeActiveEdge_of_shared (lookup_insertEntry_self _ _ _) Nat.one_lt_two
  simp only [updateTree, List.foldlM_cons, List.foldlM_nil, insertActiveEdge_of_lookup found, lt_irrefl,
    if_false, Except.pure_eq_ok, Except.ok_bind, sameTree, List.map_cons, List.map_nil, Nat.reduceAdd]
  rw [released]
  rfl

end EdgeCache

end Nearcore.Network
