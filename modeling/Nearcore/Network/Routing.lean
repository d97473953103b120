import Nearcore.Library.Unsigned

/-! The ingestion of routing-table edges (`chain/network/src/routing`): `Edge::verify`
(`network_protocol/edge.rs`), the adjacency graph `bfs::Graph` (`routing/bfs.rs`) and
`Inner::add_edges` with `update_edge` (`routing/graph/mod.rs`), which `Graph::update` runs on the
edges of a `SyncRoutingTable` message as borsh decoded them. Peers are any linearly ordered type,
and the public key of a peer is the peer itself; a signature is checked by `verifySignature`
against the hash of an edge, which is the ordered pair of its peers and its nonce. A `Vec`
indexed by a peer's id is a list read with a default: the ids `get_id` hands out are in range.
The edges that the parallel verification keeps are taken in the order of the batch. -/
namespace Nearcore.Network

open Unsigned

variable {P S : Type} [LinearOrder P]

/-- `EdgeInner`: the two peers, as decoded (the source means `key.0 < key.1`), the nonce, the
signatures of the two peers, and the removal's signature with whether the first peer made it. -/
structure Edge (P S : Type) where
  key : P × P
  nonce : Nat
  signature0 : S
  signature1 : S
  removalInfo : Option (Bool × S)

/-- `EdgeState`. -/
inductive EdgeState where
  | active
  | removed
  deriving DecidableEq

namespace Edge

/-- `Edge::build_hash`: what the peers sign, with the peers in order. -/
def buildHash (peer0 peer1 : P) (nonce : Nat) : P × P × Nat :=
  if peer0 < peer1 then (peer0, peer1, nonce) else (peer1, peer0, nonce)

section
attribute [local simp] buildHash
end

/-- `Edge::edge_type`: an odd nonce adds the edge, an even one removes it. -/
def edgeType (edge : Edge P S) : EdgeState := if edge.nonce % 2 = 1 then .active else .removed

section
attribute [local simp] edgeType
end

/-- `Edge::hash`. -/
def hash (edge : Edge P S) : P × P × Nat := buildHash edge.key.1 edge.key.2 edge.nonce

section
attribute [local simp] hash
end

/-- `Edge::prev_hash`. -/
def prevHash (edge : Edge P S) : P × P × Nat := buildHash edge.key.1 edge.key.2 (edge.nonce - 1)

section
attribute [local simp] prevHash
end

variable (verifySignature : S → P × P × Nat → P → Bool)

/-- `Edge::verify`. Only keys out of order are refused: a key whose two peers are equal passes
the first check. -/
def verify (edge : Edge P S) : Bool :=
  if edge.key.1 > edge.key.2 then false
  else
    match edge.edgeType with
    | .active =>
      edge.removalInfo.isNone && verifySignature edge.signature0 edge.hash edge.key.1 &&
        verifySignature edge.signature1 edge.hash edge.key.2
    | .removed =>
      if edge.nonce = 0 then false
      else if !verifySignature edge.signature0 edge.prevHash edge.key.1 ||
          !verifySignature edge.signature1 edge.prevHash edge.key.2 then false
      else
        match edge.removalInfo with
        | some (party, signature) =>
          verifySignature signature edge.hash (if party then edge.key.1 else edge.key.2)
        | none => false

section
attribute [local simp] verify
end

/-- `Edge::contains_peer`. -/
def containsPeer (edge : Edge P S) (peerId : P) : Bool := edge.key.1 = peerId || edge.key.2 = peerId

section
attribute [local simp] containsPeer
end

/-- `Edge::make_fake_edge`: the peers in order, the nonce, and the empty signature twice. -/
def makeFakeEdge [Inhabited S] (peer0 peer1 : P) (nonce : Nat) : Edge P S :=
  ⟨if peer0 < peer1 then (peer0, peer1) else (peer1, peer0), nonce, default, default, none⟩

end Edge

/-- `bfs::Graph`: the ids of the known peers, the peer of each id, which ids are in use, the ids
freed for reuse, the adjacency lists of the ids, and the number of edges. -/
structure Graph (P : Type) where
  sourceId : Nat
  p2id : P → Option Nat
  id2p : List P
  used : List Bool
  unused : List Nat
  adjacency : List (List Nat)
  totalActiveEdges : Nat

namespace Graph

/-- `Graph::new`: the source alone, with id 0. -/
def new (source : P) : Graph P :=
  ⟨0, fun peer => if peer = source then some 0 else none, [source], [true], [], [[]], 0⟩

section
attribute [local simp] new
end

/-- The panic of `assert_ne!(peer0, peer1)`. -/
def assertNePanic : Panic := ⟨"assertion `left != right` failed"⟩

/-- `Graph::contains_edge`. -/
def containsEdge (graph : Graph P) (peer0 peer1 : P) : Bool :=
  match graph.p2id peer0, graph.p2id peer1 with
  | some id0, some id1 => (graph.adjacency.getD id0 []).contains id1
  | _, _ => false

/-- `Graph::remove_if_unused`: an id with no edges other than the source's is freed. -/
def removeIfUnused (graph : Graph P) (id : Nat) : Graph P :=
  if (graph.adjacency.getD id []).isEmpty ∧ id ≠ graph.sourceId then
    match graph.id2p[id]? with
    | some peer =>
      { graph with used := graph.used.set id false, unused := graph.unused ++ [id],
                   p2id := Function.update graph.p2id peer none }
    | none => { graph with used := graph.used.set id false, unused := graph.unused ++ [id] }
  else graph

/-- `Graph::get_id`: the peer's id, a freed one reused, or a new one at the end. -/
def getId (graph : Graph P) (peer : P) : Except Panic (Nat × Graph P) :=
  match graph.p2id peer with
  | some id => pure (id, graph)
  | none =>
    match graph.unused.getLast? with
    | some val =>
      if graph.used.getD val false then throw ⟨"assertion failed: !self.used[val as usize]"⟩
      else if !(graph.adjacency.getD val []).isEmpty then
        throw ⟨"assertion failed: self.adjacency[val as usize].is_empty()"⟩
      else
        pure (val, { graph with unused := graph.unused.dropLast, id2p := graph.id2p.set val peer,
                                used := graph.used.set val true,
                                p2id := Function.update graph.p2id peer (some val) })
    | none =>
      let val := graph.id2p.length
      pure (val, { graph with id2p := graph.id2p ++ [peer], used := graph.used ++ [true],
                              adjacency := graph.adjacency ++ [[]],
                              p2id := Function.update graph.p2id peer (some val) })

section
attribute [local simp] getId
end

/-- `Graph::add_edge`. -/
def addEdge (graph : Graph P) (peer0 peer1 : P) : Except Panic (Graph P) :=
  if peer0 = peer1 then throw assertNePanic
  else if graph.containsEdge peer0 peer1 then pure graph
  else do
    let (id0, graph) ← graph.getId peer0
    let (id1, graph) ← graph.getId peer1
    pure { graph with adjacency := (graph.adjacency.modify id0 (· ++ [id1])).modify id1 (· ++ [id0]),
                      totalActiveEdges := graph.totalActiveEdges + 1 }

section
attribute [local simp] addEdge
end

/-- `Graph::remove_edge`; `total_active_edges -= 1` is a checked `u64` subtraction. -/
def removeEdge (graph : Graph P) (peer0 peer1 : P) : Except Panic (Graph P) :=
  if peer0 = peer1 then throw assertNePanic
  else if graph.containsEdge peer0 peer1 then do
    let (id0, graph) ← graph.getId peer0
    let (id1, graph) ← graph.getId peer1
    let graph := { graph with adjacency := (graph.adjacency.modify id0 (·.filter (· != id1))).modify id1
                                 (·.filter (· != id0)) }
    let graph := (graph.removeIfUnused id0).removeIfUnused id1
    let totalActiveEdges ← sub graph.totalActiveEdges 1
    pure { graph with totalActiveEdges }
  else pure graph

end Graph

/-- The part of `graph::Inner` that `add_edges` reads and writes: the adjacency graph, the latest
edge of each key, and the age after which edges are dropped. -/
structure Inner (P S : Type) where
  graph : Graph P
  edges : P × P → Option (Edge P S)
  pruneEdgesAfter : Option Nat

/-- `has`: a version of the edge at least as new is already stored. -/
def has (edges : P × P → Option (Edge P S)) (edge : Edge P S) : Bool :=
  (edges edge.key).any fun stored => stored.nonce ≥ edge.nonce

section
attribute [local simp] has
end

/-- `Edge::nonce_to_utc`: the nonce is a unix timestamp, within `i64` and the range of
`time::OffsetDateTime` (years up to 9999). -/
def nonceToUtc (nonce : Nat) : Option Int :=
  if nonce < 2 ^ 63 ∧ nonce ≤ 253402300799 then some nonce else none

/-- `Edge::is_edge_older_than`. -/
def Edge.isEdgeOlderThan (edge : Edge P S) (utcTimestamp : Int) : Bool :=
  (nonceToUtc edge.nonce).any (· < utcTimestamp)

/-- The order of `Edge::deduplicate`'s sort, downwards: `a` comes first if `(b.key, b.nonce)` is
at most `(a.key, a.nonce)` lexicographically. -/
def Edge.sortsBefore (a b : Edge P S) : Bool :=
  b.key.1 < a.key.1 || (b.key.1 = a.key.1 && (b.key.2 < a.key.2 || (b.key.2 = a.key.2 && b.nonce ≤ a.nonce)))

/-- `Vec::dedup_by_key`: of each run of neighbours with one key, the first. -/
def dedupByKey {α β : Type} [DecidableEq β] (key : α → β) : List α → List α
  | [] => []
  | a :: rest =>
    match dedupByKey key rest with
    | b :: kept => if key a = key b then a :: kept else a :: b :: kept
    | [] => [a]

section
attribute [local simp] dedupByKey
end

/-- `Edge::deduplicate`: the newest edge of each key. -/
def Edge.deduplicate (edges : List (Edge P S)) : List (Edge P S) :=
  dedupByKey Edge.key (edges.mergeSort Edge.sortsBefore)

section
attribute [local simp] Edge.deduplicate
end

/-- A single edge is its own deduplication. -/
@[simp] theorem Edge.deduplicate_singleton (edge : Edge P S) : Edge.deduplicate [edge] = [edge] := by
  rw [Edge.deduplicate, List.mergeSort_singleton, dedupByKey, dedupByKey]

namespace Inner

/-- `Inner::update_edge`: a newer edge is stored and added to or removed from the graph. -/
def updateEdge (inner : Inner P S) (edge : Edge P S) : Except Panic (Bool × Inner P S) :=
  if has inner.edges edge then pure (false, inner)
  else do
    let graph ← match edge.edgeType with
      | .active => inner.graph.addEdge edge.key.1 edge.key.2
      | .removed => inner.graph.removeEdge edge.key.1 edge.key.2
    pure (true, { inner with graph, edges := Function.update inner.edges edge.key (some edge) })

section
attribute [local simp] updateEdge
end

variable (verifySignature : S → P × P × Nat → P → Bool)

/-- `Inner::add_edges` at the time `now`: the new edges of the batch, those of it verified before
the first that fails, and whether none failed. -/
def addEdges (inner : Inner P S) (now : Int) (edges : List (Edge P S)) :
    Except Panic ((List (Edge P S) × Bool) × Inner P S) := do
  let edges := Edge.deduplicate edges
  let edges := edges.filter fun edge =>
    !has inner.edges edge &&
      match inner.pruneEdgesAfter with
      | some pruneEdgesAfter => !edge.isEdgeOlderThan (now - pruneEdgesAfter)
      | none => true
  let ok := edges.all (Edge.verify verifySignature)
  let edges := edges.takeWhile (Edge.verify verifySignature)
  let (added, inner) ← edges.foldlM (fun (added, inner) edge => do
      let (newer, inner) ← inner.updateEdge edge
      pure (if newer then added ++ [edge] else added, inner)) ([], inner)
  pure ((added, ok), inner)

section
attribute [local simp] addEdges
end

end Inner

/-- An edge from a peer to itself, signed twice by that peer. -/
def selfLoop (peer : P) (nonce : Nat) (signature : S) : Edge P S := ⟨(peer, peer), nonce, signature, signature, none⟩

section
attribute [local simp] selfLoop
end

/-- Storing the self-loop as a new addition reaches `add_edge` with two equal peers. -/
theorem Inner.updateEdge_selfLoop (inner : Inner P S) (peer : P) (nonce : Nat) (signature : S)
    (active : nonce % 2 = 1) (unknown : inner.edges (peer, peer) = none) :
    inner.updateEdge (selfLoop peer nonce signature) = .error Graph.assertNePanic := by
  have fresh : has inner.edges (selfLoop peer nonce signature) = false := by
    simp [has, selfLoop, unknown]
  have added : (selfLoop peer nonce signature : Edge P S).edgeType = .active := by
    simp [Edge.edgeType, selfLoop, active]
  rw [Inner.updateEdge, if_neg (by simp [fresh])]
  simp only [added]
  simp [Graph.addEdge, selfLoop]

/-- A peer that can sign the hash of its own edge sends, in a routing-table update, the edge from
itself to itself: it verifies, and adding it to the graph fails the assertion of `add_edge`, which
with `panic = "abort"` ends the node. -/
theorem addEdges_selfLoop_panics (verifySignature : S → P × P × Nat → P → Bool) (inner : Inner P S)
    (now : Int) (peer : P) (nonce : Nat) (signature : S) (active : nonce % 2 = 1)
    (signed : verifySignature signature (peer, peer, nonce) peer = true)
    (unknown : inner.edges (peer, peer) = none) (recent : inner.pruneEdgesAfter = none) :
    (selfLoop peer nonce signature).verify verifySignature = true ∧
      inner.addEdges verifySignature now [selfLoop peer nonce signature] = .error Graph.assertNePanic := by
  have hashed : (selfLoop peer nonce signature : Edge P S).hash = (peer, peer, nonce) := by
    unfold Edge.hash Edge.buildHash
    split <;> rfl
  have verified : (selfLoop peer nonce signature).verify verifySignature = true := by
    simp only [Edge.verify, hashed]
    simp [Edge.edgeType, selfLoop, active, signed]
  have fresh : has inner.edges (selfLoop peer nonce signature) = false := by
    simp [has, selfLoop, unknown]
  refine ⟨verified, ?_⟩
  -- the batch of one edge survives the deduplication, the filter and the verification
  simp only [Inner.addEdges, Edge.deduplicate_singleton, recent, fresh,
    Bool.not_false, Bool.and_true, List.filter_cons_of_pos, List.filter_nil, List.takeWhile_cons_of_pos verified,
    List.takeWhile_nil, List.foldlM_cons, List.foldlM_nil]
  rw [Inner.updateEdge_selfLoop inner peer nonce signature active unknown]
  rfl

/-- Peer 1, in a network where a signature is its signer's own id, sends the edge from 1 to 1. -/
theorem addEdges_selfLoop_panics_one :
    (selfLoop 1 1 1 : Edge Nat Nat).verify (fun signature _ peer => signature == peer) = true ∧
      (⟨Graph.new 0, fun _ => none, none⟩ : Inner Nat Nat).addEdges (fun signature _ peer => signature == peer) 0
        [selfLoop 1 1 1] = .error Graph.assertNePanic :=
  addEdges_selfLoop_panics _ _ 0 1 1 1 rfl rfl rfl rfl

end Nearcore.Network
