import Mathlib.Data.List.AList
import Mathlib.Data.Prod.Lex
import Polkadot.BTreeMap

/-!
# Collating the ingress

`collate_ingress` of `collator/src/lib.rs` fetches the un-routed egress queues of every
routing parachain, each a future, and folds them, in the order in which the futures
complete, into a `BTreeMap` keyed by the depth of a queue below the most recent block and
the parachain id.  The consolidated ingress is that map read in key order.

The futures of `futures_unordered` complete in any order: the model takes the order of
completion as a parameter `completionOrder`, any permutation of the routing parachains, and
a future as the result it resolves to.  The first failed fetch fails the fold.

When every fetch succeeds, the result holds each queue `q_i` of each parachain `id`, with
`n_id` queues, exactly once, in ascending order of `(i - n_id, id)`: queues are aligned at
the most recent block, older queues come first, and queues of one age are in ascending
order of parachain.  The keys `(-depth, id)` of the map never collide, so nothing is lost,
and the result does not depend on the order of completion.
-/

namespace Collator

/-- The consolidated ingress of a candidate: the queues of messages routed to it, each with
the parachain it comes from.  `ConsolidatedIngress` of `polkadot_primitives::parachain`,
modelled from its use in `collate_ingress` and `collate`: a wrapper of a
`Vec<(Id, Vec<Message>)>`. -/
structure ConsolidatedIngress (P M : Type) where
  queues : List (P × List M)
  deriving DecidableEq

/-- `RelayChainContext`: the set of parachains to route from, as the ascending list a
`BTreeSet` iterates, and, for each parachain, the result its future of un-routed egress
queues resolves to, the oldest queue first. -/
structure RelayChainContext (P M E : Type) [LinearOrder P] where
  routingParachains : List P
  routingParachains_sorted : routingParachains.Sorted (· < ·)
  unroutedEgress : P → Except E (List (List M))

variable {P M E : Type} [LinearOrder P]

/-- The fetch of one routing parachain: its un-routed egress, paired with its id. -/
def fetch (relayContext : RelayChainContext P M E) (routingParachain : P) :
    Except E (P × List (List M)) :=
  (relayContext.unroutedEgress routingParachain).map fun egresses => (routingParachain, egresses)

/-- The body of the fold: the queues of a parachain, the most recent at depth `0` and
older ones at negative depths, each under the key `(depth, routing_id)`.  The cast
`depth as i64` is exact, since a `Vec` holds fewer than `2^63` elements. -/
def insertEgresses (map : BTreeMap (ℤ ×ₗ P) (List M)) (routingId : P)
    (egresses : List (List M)) : BTreeMap (ℤ ×ₗ P) (List M) :=
  egresses.reverse.enum.foldl
    (fun map (depth, egress) => map.insert (toLex (-(depth : ℤ), routingId)) egress) map

/-- The fold of `futures_unordered(egress_fetch)` over the fetches in the order they
complete; the first failed fetch fails it. -/
def foldIngress :
    BTreeMap (ℤ ×ₗ P) (List M) → List (Except E (P × List (List M))) →
      Except E (BTreeMap (ℤ ×ₗ P) (List M))
  | map, [] => .ok map
  | _, .error e :: _ => .error e
  | map, .ok (routingId, egresses) :: rest => foldIngress (insertEgresses map routingId egresses) rest

/-- `collate_ingress`, when the fetches of the routing parachains complete in the order
`completionOrder`. -/
def collateIngress (relayContext : RelayChainContext P M E) (completionOrder : List P) :
    Except E (ConsolidatedIngress P M) :=
  (foldIngress .new (completionOrder.map (fetch relayContext))).map fun ordered =>
    ⟨ordered.entries.map fun e => ((ofLex e.1).2, e.2)⟩

/-- `DummyRelayChainCtx` of the tests: the egress queues of each parachain in a hash map, no
queues for a parachain missing from it, and the set of parachains currently routed from. -/
def dummyRelayChainCtx (egresses : AList fun _ : P => List (List M)) (currentlyRouting : List P)
    (h : currentlyRouting.Sorted (· < ·)) : RelayChainContext P M Unit where
  routingParachains := currentlyRouting
  routingParachains_sorted := h
  unroutedEgress id := .ok ((egresses.lookup id).getD [])

/-! ### The entries of the map -/

/-- The entries the fold inserts for the queues `egresses` of parachain `id`. -/
def egressEntries (id : P) (egresses : List (List M)) : List ((ℤ ×ₗ P) × List M) :=
  egresses.reverse.enum.map fun (depth, egress) => (toLex (-(depth : ℤ), id), egress)

theorem insertEgresses_eq (map : BTreeMap (ℤ ×ₗ P) (List M)) (id : P) (egresses : List (List M)) :
  insertEgresses map id egresses = (egressEntries id egresses).foldl (fun m e => m.insert e.1 e.2) map
  := by
  simp only [insertEgresses, egressEntries, List.foldl_map]

omit [LinearOrder P] in
theorem mem_egressEntries {id : P} {egresses : List (List M)} {k : ℤ ×ₗ P} {q : List M} :
  (k, q) ∈ egressEntries id egresses ↔
    ∃ depth : ℕ, egresses.reverse[depth]? = some q ∧ k = toLex (-(depth : ℤ), id)
  := by
  simp only [egressEntries, List.mem_map, Prod.mk.injEq, Prod.exists, List.mem_enum_iff_getElem?]
  constructor
  · rintro ⟨depth, egress, h, rfl, rfl⟩
    exact ⟨depth, h, rfl⟩
  · rintro ⟨depth, h, rfl⟩
    exact ⟨depth, q, h, rfl, rfl⟩

/-- Depth `d` of the reversed queues is index `n - 1 - d` of the queues: in the keys of
`alignedQueues`, key `-d - 1` is `i - n`. -/
theorem getElem?_reverse_iff {qs : List (List M)} {q : List M} {z : ℤ} :
  (∃ depth : ℕ, qs.reverse[depth]? = some q ∧ z = -(depth : ℤ) - 1) ↔
    ∃ i : ℕ, qs[i]? = some q ∧ z = (i : ℤ) - qs.length
  := by
  constructor
  · rintro ⟨d, h, rfl⟩
    have hd : d < qs.length := by simpa using (List.getElem?_eq_some_iff.mp h).1
    rw [List.getElem?_reverse hd] at h
    exact ⟨qs.length - 1 - d, h, by omega⟩
  · rintro ⟨i, h, rfl⟩
    have hi : i < qs.length := (List.getElem?_eq_some_iff.mp h).1
    refine ⟨qs.length - 1 - i, ?_, by omega⟩
    rw [List.getElem?_reverse (by omega), show qs.length - 1 - (qs.length - 1 - i) = i by omega]
    exact h

variable {relayContext : RelayChainContext P M E} {queues : P → List (List M)}

/-- When every fetch succeeds, the fold inserts the entries of the parachains in the order of
completion. -/
theorem foldIngress_map_fetch {completionOrder : List P} (map : BTreeMap (ℤ ×ₗ P) (List M))
    (hok : ∀ id ∈ completionOrder, relayContext.unroutedEgress id = .ok (queues id)) :
  foldIngress map (completionOrder.map (fetch relayContext))
    = .ok ((completionOrder.flatMap fun id => egressEntries id (queues id)).foldl
        (fun m e => m.insert e.1 e.2) map)
  := by
  induction completionOrder generalizing map with
  | nil => rfl
  | cons id rest ih =>
    have hf : fetch relayContext id = .ok (id, queues id) := by
      simp [fetch, hok id (List.mem_cons_self id rest), Except.map]
    rw [List.map_cons, hf, foldIngress, ih _ fun id' h => hok id' (List.mem_cons_of_mem id h),
      insertEgresses_eq, List.flatMap_cons, List.foldl_append]

omit [LinearOrder P] in
/-- Keys of the entries never collide: a key fixes the parachain and the depth, so the
queue. -/
theorem egressEntries_functional {order : List P} {k : ℤ ×ₗ P} {q q' : List M}
    (h : (k, q) ∈ order.flatMap fun id => egressEntries id (queues id))
    (h' : (k, q') ∈ order.flatMap fun id => egressEntries id (queues id)) :
  q' = q
  := by
  simp only [List.mem_flatMap, mem_egressEntries] at h h'
  obtain ⟨id, -, d, hq, rfl⟩ := h
  obtain ⟨id', -, d', hq', hk⟩ := h'
  simp only [toLex_inj, Prod.mk.injEq] at hk
  obtain ⟨hd, rfl⟩ := hk
  obtain rfl : d = d' := by omega
  exact Option.some.inj (hq'.symm.trans hq)

/-! ### The order of the ingress -/

/-- The queues of the parachains `routing` in the order the ingress should have: queue `q_i`
of parachain `id`, with `n_id` queues, under the key `(i - n_id, id)`. -/
def alignedQueues (routing : List P) (queues : P → List (List M)) :
    List ((ℤ ×ₗ P) × List M) :=
  routing.flatMap fun id =>
    (queues id).enum.map fun (i, q) => (toLex ((i : ℤ) - (queues id).length, id), q)

omit [LinearOrder P] in
theorem mem_alignedQueues {routing : List P} {k : ℤ ×ₗ P} {q : List M} :
  (k, q) ∈ alignedQueues routing queues ↔
    ∃ id ∈ routing, ∃ i : ℕ, (queues id)[i]? = some q ∧ k = toLex ((i : ℤ) - (queues id).length, id)
  := by
  simp only [alignedQueues, List.mem_flatMap, List.mem_map, Prod.mk.injEq, Prod.exists,
    List.mem_enum_iff_getElem?]
  constructor
  · rintro ⟨id, hid, i, q, h, rfl, rfl⟩
    exact ⟨id, hid, i, h, rfl⟩
  · rintro ⟨id, hid, i, h, rfl⟩
    exact ⟨id, hid, i, q, h, rfl, rfl⟩

omit [LinearOrder P] in
/-- Each queue of each parachain stands in the aligned queues once. -/
theorem nodup_alignedQueues {routing : List P} (h : routing.Nodup) :
  (alignedQueues routing queues).Nodup
  := by
  refine List.nodup_flatMap.mpr ⟨fun id _ => ?_, h.imp fun hne x hx hx' => ?_⟩
  · refine List.Nodup.map (fun ⟨i, q⟩ ⟨i', q'⟩ he => ?_)
      ((List.enum_map_fst (queues id) ▸ List.nodup_range _).of_map Prod.fst)
    simp only [toLex_inj, Prod.mk.injEq] at he
    obtain ⟨⟨hi, -⟩, rfl⟩ := he
    obtain rfl : i = i' := by omega
    rfl
  · simp only [List.mem_map, Prod.exists] at hx hx'
    obtain ⟨_, _, -, rfl⟩ := hx
    obtain ⟨_, _, -, he⟩ := hx'
    simp only [Prod.mk.injEq, toLex_inj] at he
    exact hne he.1.2.symm

omit [LinearOrder P] in
theorem mem_alignedQueues_of_id {routing : List P} {id : P} (hid : id ∈ routing) {k : ℤ ×ₗ P}
    {q : List M} :
  (k, q) ∈ alignedQueues routing queues ∧ (ofLex k).2 = id ↔
    (k, q) ∈ (queues id).enum.map fun (i, q) => (toLex ((i : ℤ) - (queues id).length, id), q)
  := by
  simp only [mem_alignedQueues, List.mem_map, Prod.mk.injEq, Prod.exists,
    List.mem_enum_iff_getElem?]
  constructor
  · rintro ⟨⟨id', -, i, hq, rfl⟩, rfl⟩
    exact ⟨i, q, hq, rfl, rfl⟩
  · rintro ⟨i, q, hq, rfl, rfl⟩
    exact ⟨⟨id, hid, i, hq, rfl⟩, rfl⟩

/-- Sorted by key, the aligned queues of one parachain are its queues in their order. -/
theorem filter_of_aligned {routing : List P} {entries : List ((ℤ ×ₗ P) × List M)} {id : P}
    (hp : entries.Perm (alignedQueues routing queues)) (hs : (entries.map Prod.fst).Sorted (· < ·))
    (hid : id ∈ routing) :
  entries.filter (fun e => (ofLex e.1).2 = id)
    = (queues id).enum.map fun (i, q) => (toLex ((i : ℤ) - (queues id).length, id), q)
  := by
  have : IsAntisymm ((ℤ ×ₗ P) × List M) fun a b => a.1 < b.1 :=
    ⟨fun _ _ h h' => (lt_asymm h h').elim⟩
  have hs' := (List.pairwise_map.mp hs).filter (fun e => (ofLex e.1).2 = id)
  have hblock : ((queues id).enum.map fun (i, q) =>
      (toLex ((i : ℤ) - (queues id).length, id), q)).Pairwise fun a b => a.1 < b.1 := by
    refine List.pairwise_map.mpr ((List.pairwise_map.mp ?_).imp fun {a b} (h : a.1 < b.1) =>
      (Prod.Lex.lt_iff _ _).mpr (.inl (by simp only; omega)))
    rw [List.enum_map_fst]
    exact List.pairwise_lt_range _
  refine List.eq_of_perm_of_sorted ((List.perm_ext_iff_of_nodup
    (hs'.imp fun h e => by subst e; exact lt_irrefl _ h)
    (hblock.imp fun h e => by subst e; exact lt_irrefl _ h)).mpr fun ⟨k, q⟩ => ?_) hs' hblock
  rw [List.mem_filter, hp.mem_iff, decide_eq_true_iff]
  exact mem_alignedQueues_of_id hid

/-- The key in `alignedQueues` for a key of the map: one block earlier. -/
def alignKey (e : (ℤ ×ₗ P) × List M) : (ℤ ×ₗ P) × List M :=
  (toLex ((ofLex e.1).1 - 1, (ofLex e.1).2), e.2)

/-- The map the fold builds holds exactly the entries of the parachains' queues. -/
theorem mem_foldl_egressEntries {order : List P} {k : ℤ ×ₗ P} {q : List M} :
  (k, q) ∈ ((order.flatMap fun id => egressEntries id (queues id)).foldl
      (fun m e => m.insert e.1 e.2) (.new : BTreeMap (ℤ ×ₗ P) (List M))).entries ↔
    (k, q) ∈ order.flatMap fun id => egressEntries id (queues id)
  := by
  rw [← BTreeMap.get_eq_some, BTreeMap.get_foldl_insert, BTreeMap.get_new, Option.or_none]
  refine ⟨fun h => List.mem_reverse.mp (BTreeMap.mem_of_lookupEntry_eq_some h), fun h => ?_⟩
  exact BTreeMap.lookupEntry_eq_some_of_mem
    (fun q' h' => egressEntries_functional h (List.mem_reverse.mp h')) (List.mem_reverse.mpr h)

omit [LinearOrder P] in
/-- One block earlier, the entries of the parachains completing in any order are the
aligned queues. -/
theorem mem_map_alignKey {order routing : List P} (hperm : order.Perm routing)
    {x : (ℤ ×ₗ P) × List M} :
  x ∈ (order.flatMap fun id => egressEntries id (queues id)).map alignKey ↔
    x ∈ alignedQueues routing queues
  := by
  obtain ⟨k, q⟩ := x
  simp only [List.mem_map, Prod.exists, mem_alignedQueues, List.mem_flatMap, mem_egressEntries]
  constructor
  · rintro ⟨-, b, ⟨id, hid, d, hd, rfl⟩, he⟩
    obtain ⟨rfl, rfl⟩ := Prod.mk.inj he
    obtain ⟨i, hi, hz⟩ := getElem?_reverse_iff.mp ⟨d, hd, rfl⟩
    exact ⟨id, hperm.mem_iff.mp hid, i, hi, show toLex (-(d : ℤ) - 1, id) = _ by rw [hz]⟩
  · rintro ⟨id, hid, i, hi, rfl⟩
    obtain ⟨d, hd, hz⟩ := getElem?_reverse_iff.mpr ⟨i, hi, rfl⟩
    exact ⟨_, q, ⟨id, hperm.mem_iff.mpr hid, d, hd, rfl⟩,
      show (toLex (-(d : ℤ) - 1, id), q) = _ by rw [← hz]⟩

/-- When every fetch succeeds, the consolidated ingress is the aligned queues in strictly
ascending order of key, whatever the order of completion. -/
theorem collateIngress_eq_ok {completionOrder : List P}
    (hperm : completionOrder.Perm relayContext.routingParachains)
    (hok : ∀ id ∈ relayContext.routingParachains, relayContext.unroutedEgress id = .ok (queues id)) :
  ∃ entries : List ((ℤ ×ₗ P) × List M),
    collateIngress relayContext completionOrder
      = .ok ⟨entries.map fun e => ((ofLex e.1).2, e.2)⟩ ∧
    entries.Perm (alignedQueues relayContext.routingParachains queues) ∧
    (entries.map Prod.fst).Sorted (· < ·)
  := by
  set ordered := (completionOrder.flatMap fun id => egressEntries id (queues id)).foldl
    (fun m e => m.insert e.1 e.2) (.new : BTreeMap (ℤ ×ₗ P) (List M))
  have hsorted : ((ordered.entries.map alignKey).map Prod.fst).Sorted (· < ·) := by
    refine List.pairwise_map.mpr (List.pairwise_map.mpr (ordered.sorted.imp fun {a b} h => ?_))
    rcases (Prod.Lex.lt_iff (ofLex a.1) (ofLex b.1)).mp h with h | ⟨h, hp⟩
    · exact (Prod.Lex.lt_iff _ _).mpr (.inl (by simp only; omega))
    · exact (Prod.Lex.lt_iff _ _).mpr (.inr ⟨by simp only; omega, hp⟩)
  refine ⟨ordered.entries.map alignKey, ?_, ?_, hsorted⟩
  · simp only [collateIngress, foldIngress_map_fetch _ fun id h => hok id (hperm.mem_iff.mp h),
      List.map_map]
    rfl
  · refine (List.perm_ext_iff_of_nodup
      ((List.pairwise_map.mp hsorted).imp fun h e => by subst e; exact lt_irrefl _ h)
      (nodup_alignedQueues relayContext.routingParachains_sorted.nodup)).mpr fun x => ?_
    rw [← mem_map_alignKey hperm]
    simp only [List.mem_map, ordered, Prod.exists, mem_foldl_egressEntries]

/-- `collate_ingress` orders the ingress correctly, whatever order the fetches finish in:
when every routing parachain's fetch succeeds, the result holds each queue `q_i` of each
parachain `id` exactly once, and nothing else, in strictly ascending order of
`(i - n_id, id)`, so that each parachain's queues keep their order. -/
theorem collateIngress_aligned {completionOrder : List P}
    (hperm : completionOrder.Perm relayContext.routingParachains)
    (hok : ∀ id ∈ relayContext.routingParachains, relayContext.unroutedEgress id = .ok (queues id)) :
  ∃ entries : List ((ℤ ×ₗ P) × List M),
    collateIngress relayContext completionOrder
      = .ok ⟨entries.map fun e => ((ofLex e.1).2, e.2)⟩ ∧
    entries.Perm (alignedQueues relayContext.routingParachains queues) ∧
    (entries.map Prod.fst).Sorted (· < ·) ∧
    ∀ id ∈ relayContext.routingParachains,
      (((entries.map fun e => ((ofLex e.1).2, e.2)).filter fun x => x.1 = id).map Prod.snd)
        = queues id
  := by
  obtain ⟨entries, hc, hp, hs⟩ := collateIngress_eq_ok hperm hok
  refine ⟨entries, hc, hp, hs, fun id hid => ?_⟩
  rw [List.filter_map, List.map_map]
  simp [Function.comp_def, filter_of_aligned hp hs hid]

/-- The data of the test `collates_ingress`: parachain `2` last routed five blocks ago,
parachain `3` three blocks ago, each queue one message. -/
theorem collateIngress_aligned_collates_ingress :
  ∃ entries : List ((ℤ ×ₗ ℕ) × List (List ℕ)),
    collateIngress (dummyRelayChainCtx (AList.insert 3 [[[9]], [[11]], [[13]]]
        (AList.insert 2 [[[1, 2, 3]], [[4, 5, 6]], [[7, 8]], [[10]], [[12]]] ∅)) [2, 3]
        (by decide)) [3, 2]
      = .ok ⟨entries.map fun e => ((ofLex e.1).2, e.2)⟩ ∧
    entries.Perm (alignedQueues [2, 3] fun id => ((AList.insert 3 [[[9]], [[11]], [[13]]]
        (AList.insert 2 [[[1, 2, 3]], [[4, 5, 6]], [[7, 8]], [[10]], [[12]]] ∅) :
          AList fun _ : ℕ => List (List (List ℕ))).lookup id).getD []) ∧
    (entries.map Prod.fst).Sorted (· < ·) ∧
    ∀ id ∈ [2, 3],
      (((entries.map fun e => ((ofLex e.1).2, e.2)).filter fun x => x.1 = id).map Prod.snd)
        = ((AList.insert 3 [[[9]], [[11]], [[13]]]
          (AList.insert 2 [[[1, 2, 3]], [[4, 5, 6]], [[7, 8]], [[10]], [[12]]] ∅) :
            AList fun _ : ℕ => List (List (List ℕ))).lookup id).getD []
  := collateIngress_aligned (by decide) fun _ _ => rfl

/-- The test `collates_ingress`, with the fetch of parachain `3` completing first. -/
example :
  collateIngress (dummyRelayChainCtx (AList.insert 3 [[[9]], [[11]], [[13]]]
      (AList.insert 2 [[[1, 2, 3]], [[4, 5, 6]], [[7, 8]], [[10]], [[12]]] ∅)) [2, 3]
      (by decide)) [3, 2]
    = .ok ⟨[(2, [[1, 2, 3]]), (2, [[4, 5, 6]]), (2, [[7, 8]]), (3, [[9]]), (2, [[10]]),
      (3, [[11]]), (2, [[12]]), (3, [[13]])]⟩
  := by rfl

/-! ### The order of completion and failed fetches -/

/-- When every fetch succeeds, the consolidated ingress does not depend on the order in
which the fetches complete. -/
theorem collateIngress_completion_order {order order' : List P}
    (hperm : order.Perm relayContext.routingParachains)
    (hperm' : order'.Perm relayContext.routingParachains)
    (hok : ∀ id ∈ relayContext.routingParachains, relayContext.unroutedEgress id = .ok (queues id)) :
  collateIngress relayContext order = collateIngress relayContext order'
  := by
  obtain ⟨entries, hc, hp, hs⟩ := collateIngress_eq_ok hperm hok
  obtain ⟨entries', hc', hp', hs'⟩ := collateIngress_eq_ok hperm' hok
  have : IsAntisymm ((ℤ ×ₗ P) × List M) fun a b => a.1 < b.1 :=
    ⟨fun _ _ h h' => (lt_asymm h h').elim⟩
  rw [hc, hc', List.eq_of_perm_of_sorted (hp.trans hp'.symm) (List.pairwise_map.mp hs)
    (List.pairwise_map.mp hs')]

/-- The routing parachains of the test `collates_ingress`, completing in either order. -/
theorem collateIngress_completion_order_collates_ingress :
  collateIngress (dummyRelayChainCtx (AList.insert 3 [[[9]], [[11]], [[13]]]
      (AList.insert 2 [[[1, 2, 3]], [[4, 5, 6]], [[7, 8]], [[10]], [[12]]] ∅)) [2, 3]
      (by decide)) [3, 2]
    = collateIngress (dummyRelayChainCtx (AList.insert 3 [[[9]], [[11]], [[13]]]
      (AList.insert 2 [[[1, 2, 3]], [[4, 5, 6]], [[7, 8]], [[10]], [[12]]] ∅)) [2, 3]
      (by decide)) [2, 3]
  := collateIngress_completion_order (by decide) (by decide) fun _ _ => rfl

theorem foldIngress_eq_error {order : List P} {map : BTreeMap (ℤ ×ₗ P) (List M)} {e : E}
    (h : foldIngress map (order.map (fetch relayContext)) = .error e) :
  ∃ id ∈ order, relayContext.unroutedEgress id = .error e
  := by
  induction order generalizing map with
  | nil => cases h
  | cons id rest ih =>
    rcases hid : relayContext.unroutedEgress id with e' | egresses <;>
      simp only [List.map_cons, fetch, hid, Except.map, foldIngress] at h
    · cases h
      exact ⟨id, List.mem_cons_self id rest, hid⟩
    · obtain ⟨id', hid', he⟩ := ih h
      exact ⟨id', List.mem_cons_of_mem id hid', he⟩

theorem foldIngress_isError {order : List P} {map : BTreeMap (ℤ ×ₗ P) (List M)} {id : P} {e : E}
    (hid : id ∈ order) (he : relayContext.unroutedEgress id = .error e) :
  ∃ e', foldIngress map (order.map (fetch relayContext)) = .error e'
  := by
  induction order generalizing map with
  | nil => cases hid
  | cons id' rest ih =>
    rcases hid' : relayContext.unroutedEgress id' with e' | egresses <;>
      simp only [List.map_cons, fetch, hid', Except.map, foldIngress]
    · exact ⟨e', rfl⟩
    · rcases List.mem_cons.mp hid with rfl | hid
      · simp [he] at hid'
      · exact ih hid

/-- `collate_ingress` fails exactly when the fetch of a routing parachain fails, and then
with the error of a failed fetch. -/
theorem collateIngress_eq_error {completionOrder : List P}
    (hperm : completionOrder.Perm relayContext.routingParachains) :
  (∀ e, collateIngress relayContext completionOrder = .error e →
    ∃ id ∈ relayContext.routingParachains, relayContext.unroutedEgress id = .error e) ∧
  ((∃ id ∈ relayContext.routingParachains, ∃ e, relayContext.unroutedEgress id = .error e) →
    ∃ e, collateIngress relayContext completionOrder = .error e)
  := by
  refine ⟨fun e h => ?_, fun ⟨id, hid, e, he⟩ => ?_⟩
  · rcases hf : foldIngress .new (completionOrder.map (fetch relayContext)) with e' | _ <;>
      simp only [collateIngress, hf, Except.map, reduceCtorEq, Except.error.injEq] at h
    obtain ⟨id, hid, he⟩ := foldIngress_eq_error hf
    exact ⟨id, hperm.mem_iff.mp hid, h ▸ he⟩
  · obtain ⟨e', hf⟩ : ∃ e', foldIngress .new (completionOrder.map (fetch relayContext)) = .error e' :=
      foldIngress_isError (hperm.mem_iff.mpr hid) he
    exact ⟨e', by simp [collateIngress, hf, Except.map]⟩

/-- A routing parachain of the test context whose fetch fails fails the collation. -/
theorem collateIngress_eq_error_failing :
  (∀ e, collateIngress (⟨[2, 3], by decide, fun id => if id = 3 then .error () else .ok []⟩ :
      RelayChainContext ℕ ℕ Unit) [3, 2] = .error e →
    ∃ id ∈ [2, 3], (if id = 3 then .error () else .ok [] : Except Unit (List (List ℕ)))
      = .error e) ∧
  ((∃ id ∈ [2, 3], ∃ e, (if id = 3 then .error () else .ok [] : Except Unit (List (List ℕ)))
      = .error e) →
    ∃ e, collateIngress (⟨[2, 3], by decide, fun id => if id = 3 then .error () else .ok []⟩ :
      RelayChainContext ℕ ℕ Unit) [3, 2] = .error e)
  := collateIngress_eq_error (by decide)

/-! ### The messages of the candidate -/

/-- The messages `collate` hands to `produce_candidate`: every message of every queue of the
ingress, with the parachain it comes from, in the order of the ingress. -/
def ingressMessages (ingress : ConsolidatedIngress P M) : List (P × M) :=
  ingress.queues.flatMap fun (id, msgs) => msgs.map fun msg => (id, msg)

theorem ingressMessages_filter (queues : List (P × List M)) (id : P) :
  ((ingressMessages ⟨queues⟩).filter fun x => x.1 = id).map Prod.snd
    = ((queues.filter fun x => x.1 = id).map Prod.snd).flatten
  := by
  induction queues with
  | nil => rfl
  | cons x rest ih =>
    obtain ⟨id', msgs⟩ := x
    by_cases h : id' = id
    · subst h
      simp_all [ingressMessages, List.filter_map, Function.comp_def]
    · simp_all [ingressMessages, List.filter_map, Function.comp_def]

/-- When every fetch succeeds, `produce_candidate` is handed, for each routing parachain, all
the messages of its queues, oldest queue first. -/
theorem collate_messages {completionOrder : List P}
    (hperm : completionOrder.Perm relayContext.routingParachains)
    (hok : ∀ id ∈ relayContext.routingParachains, relayContext.unroutedEgress id = .ok (queues id)) :
  ∃ ingress, collateIngress relayContext completionOrder = .ok ingress ∧
    ∀ id ∈ relayContext.routingParachains,
      ((ingressMessages ingress).filter fun x => x.1 = id).map Prod.snd = (queues id).flatten
  := by
  obtain ⟨entries, hc, hp, hs⟩ := collateIngress_eq_ok hperm hok
  refine ⟨_, hc, fun id hid => ?_⟩
  rw [ingressMessages_filter, List.filter_map, List.map_map]
  simp [Function.comp_def, filter_of_aligned hp hs hid]

/-- The data of the test `collates_ingress`, the fetch of parachain `3` completing first: the
messages of each parachain, oldest queue first. -/
theorem collate_messages_collates_ingress :
  ∃ ingress, collateIngress (dummyRelayChainCtx (AList.insert 3 [[[9]], [[11]], [[13]]]
      (AList.insert 2 [[[1, 2, 3]], [[4, 5, 6]], [[7, 8]], [[10]], [[12]]] ∅)) [2, 3]
      (by decide)) [3, 2] = .ok ingress ∧
    ∀ id ∈ [2, 3], ((ingressMessages ingress).filter fun x => x.1 = id).map Prod.snd =
      (((AList.insert 3 [[[9]], [[11]], [[13]]]
        (AList.insert 2 [[[1, 2, 3]], [[4, 5, 6]], [[7, 8]], [[10]], [[12]]] ∅) :
          AList fun _ : ℕ => List (List (List ℕ))).lookup id).getD []).flatten
  := collate_messages (by decide) fun _ _ => rfl

end Collator
