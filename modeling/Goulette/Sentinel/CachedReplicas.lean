import Goulette.Library.Pool
import Goulette.Library.Referrals
import Goulette.Sentinel.CacheCalls

/-! The replica cache of a sentinel without etcd while calls run at the same time. -/

namespace Goulette.Sentinel

open Goulette.Go Goulette.Storage Runs Referrals List

inductive CacheRequest
  | registerBroker (now : Int) (brokerID address : GoString) (topics : List GoString)
  | keepAlive (now : Int) (brokerID address : GoString)
  | unregisterBroker (brokerID : GoString)
  | checkBrokers (now : Int)
  | getTopicLeader (topic : GoString) (replicaCount : UInt32) (unreachable : List GoString)

def CacheRequest.call : CacheRequest → CacheCall
  | .registerBroker now brokerID address topics => .registerBroker now brokerID address topics
  | .keepAlive now brokerID address => .keepAlive now brokerID address
  | .unregisterBroker brokerID => .unregisterBroker brokerID
  | .checkBrokers now => .checkBrokers now
  | .getTopicLeader topic replicaCount unreachable =>
      .query { topic, replicaCount := replicaCount.toNat, unreachable } .lock

/-- The calls stand in the order they began. -/
structure CacheSystem where
  server : SentinelServer
  calls : List CacheCall

inductive CacheAction
  | start (request : CacheRequest)
  | advance (call choice : Nat)

/-- Every cached broker, the leader among them, is the entry that the table has under its name. -/
def SentinelServer.CachesRegistered (server : SentinelServer) : Prop :=
  ∀ topic cache, server.replicationCache.lookup topic = some cache
    → ∀ ref, ref ∈ cache.brokers ∨ cache.leader = some ref
    → server.brokers.lookup (server.record ref).brokerID = some ref

namespace CacheSystem

/-- A call waits as long as another call holds the lock that its next region begins with. -/
def canRun (system : CacheSystem) (call : CacheCall) : Bool :=
  !(call.locks && system.calls.any CacheCall.holds)
    && call.locksTopic.all (fun topic => !system.calls.any (CacheCall.holdsTopic topic))

def step (system : CacheSystem) : CacheAction → CacheSystem
  | .start request => { system with calls := system.calls ++ [request.call] }
  | .advance i choice =>
      match system.calls[i]? with
      | none => system
      | some call =>
          if system.canRun call then
            let result := system.server.cacheRegion choice call
            { server := result.1, calls := system.calls.set i result.2 }
          else system

def new : CacheSystem where
  server := .newSentinelServer none
  calls := []

def Idle (system : CacheSystem) : Prop := ∀ call ∈ system.calls, call.querying = false

instance (system : CacheSystem) : Decidable system.Idle :=
  inferInstanceAs (Decidable (∀ call ∈ system.calls, call.querying = false))

/-- Only cached sets of some topics have a broker, and no query in progress may still store it. -/
def released (system : CacheSystem) (ref : BrokerRef) (topics : List GoString) : Bool :=
  system.server.replicationCache.entries.all
      (fun entry => ref ∉ entry.2.brokers ∨ entry.1 ∈ topics)
    && system.calls.all (fun call => ref ∉ call.refs)

def leaves (system : CacheSystem) (ref : BrokerRef) : Bool :=
  system.calls.any
    (fun call =>
      call.leaving?.any (fun brokerID => system.server.brokers.lookup brokerID = some ref))

/-- A call that begins to unregister a broker finds it released but for the topics it declared, and
a query that may store replicas again does not start from cached ones that are being unregistered.
-/
def allows (system : CacheSystem) : CacheCall → Bool
  | .unregisterBroker brokerID =>
      (system.server.brokers.lookup brokerID).all
        (fun ref => system.released ref (system.server.record ref).topics)
  | .query query .readCache =>
      query.unreachable = []
        || (query.cached? system.server).all (fun refs => refs.all (fun ref => !system.leaves ref))
  | _ => true

def releases (system : CacheSystem) : CacheAction → Bool
  | .start _ => true
  | .advance i _ =>
      (system.calls[i]?).all (fun call => !system.canRun call || system.allows call)

end CacheSystem

theorem LeaderQuery.refs_ended (query : LeaderQuery) (refs : List BrokerRef)
    : (query.ended refs).refs = [] := by
  cases refs with
  | nil => rfl
  | cons ref rest => rfl

theorem LeaderQuery.refs_selected (query : LeaderQuery) (refs : List BrokerRef)
    : (query.selected refs).refs ⊆ refs := by
  unfold selected
  split
  · rw [refs_ended]
    exact nil_subset refs
  · exact List.Subset.refl refs

namespace SentinelServer

/-- What the region of a query does: it changes neither the table nor the caches, looks up a broker,
reads cached brokers that it may store again, or stores brokers that it has.
-/
inductive QueryEffect (server : SentinelServer) (query : LeaderQuery) (phase : QueryPhase)
    (new : SentinelServer) (next : QueryPhase)
    : Prop
  | keep (membership : new.membership = server.membership)
      (caches : new.replicationCache = server.replicationCache) (refs : next.refs ⊆ phase.refs)
  | look (brokerID : GoString) (ref : BrokerRef) (locks : phase.locks = true)
      (found : server.brokers.lookup brokerID = some ref) (same : new = server)
      (refs : next.refs ⊆ ref :: phase.refs)
  | read (cached : List BrokerRef) (reads : phase = .readCache)
      (found : query.cached? server = some cached) (reports : query.unreachable ≠ [])
      (same : new = server) (refs : next.refs ⊆ cached)
  | store (stored : List BrokerRef) (has : stored ⊆ phase.refs)
      (caches : new = World.storeCache server query.topic stored query.replicaCount)
      (refs : next.refs ⊆ phase.refs)

theorem queryRegion_effect (server : SentinelServer) (query : LeaderQuery) (phase : QueryPhase)
    : server.QueryEffect query phase (server.queryRegion query phase).1
        (server.queryRegion query phase).2 := by
  have quiet (next : QueryPhase) (refs : next.refs ⊆ phase.refs)
      : server.QueryEffect query phase server next := .keep rfl rfl refs
  have idle {next : QueryPhase} (refs : next.refs = phase.refs)
      : server.QueryEffect query phase server next := quiet next (refs ▸ List.Subset.refl _)
  cases phase with
  | readCache =>
      simp only [queryRegion]
      split
      · next refs found =>
          by_cases reports : query.unreachable = []
          · refine quiet _ ?_
            rw [LeaderQuery.selected, if_pos reports, LeaderQuery.refs_ended]
            exact nil_subset _
          · exact .read refs rfl found reports rfl (query.refs_selected refs)
      · exact idle rfl
  | next loop =>
      simp only [queryRegion]
      split
      · exact idle rfl
      · split
        · exact idle rfl
        · exact idle rfl
  | lookup loop brokerID =>
      simp only [queryRegion]
      split
      · exact idle rfl
      · next ref found => exact .look brokerID ref rfl found rfl (List.Subset.refl _)
  | check loop ref =>
      simp only [queryRegion]
      split
      · refine quiet _ (fun other member => ?_)
        simp only [QueryPhase.refs, mem_append, mem_singleton] at member
        exact mem_cons.mpr member.symm
      · exact quiet _ (subset_cons_self _ _)
  | store chosen => exact .store chosen (List.Subset.refl _) rfl (query.refs_selected chosen)
  | marking current brokerIDs =>
      cases brokerIDs with
      | cons brokerID rest =>
          have caches
              : (server.updateBrokerStatus [brokerID] .down).replicationCache
                = server.replicationCache := by
            simp only [updateBrokerStatus, foldl_cons, foldl_nil]
            split <;> rfl
          exact .keep (server.membership_updateBrokerStatus [brokerID] .down) caches
            (List.Subset.refl _)
      | nil =>
          simp only [queryRegion]
          split
          · exact quiet _ (filter_subset_self _)
          · refine quiet _ ?_
            rw [LeaderQuery.refs_ended]
            exact nil_subset _
  | reiterate available =>
      refine idle ?_
      simp only [queryRegion, QueryPhase.refs, Replacement.refs, append_nil]
  | replaceNext loop =>
      simp only [queryRegion]
      split
      · exact idle rfl
      split
      · exact quiet _ (nil_subset _)
      split
      · exact idle rfl
      · exact idle rfl
  | replaceLookup loop brokerID =>
      simp only [queryRegion]
      split
      · exact idle rfl
      · next ref found => exact .look brokerID ref rfl found rfl (List.Subset.refl _)
  | replaceCheck loop ref =>
      simp only [queryRegion]
      split
      · refine quiet _ (fun other member => ?_)
        simp only [QueryPhase.refs, Replacement.refs, ← append_assoc] at member
        rw [mem_append, mem_singleton] at member
        exact mem_cons.mpr member.symm
      · exact quiet _ (subset_cons_self _ _)
  | storeAgain refs =>
      refine .store refs (List.Subset.refl _) rfl ?_
      simp only [queryRegion, LeaderQuery.refs_ended]
      exact nil_subset _
  | _ => exact idle rfl

/-- What a region of a call does to the server, and how the call goes on. -/
inductive RegionEffect (server : SentinelServer)
    : CacheCall → SentinelServer → CacheCall → Prop
  | quiet {call next : CacheCall} {new : SentinelServer}
      (membership : new.membership = server.membership)
      (caches : new.replicationCache = server.replicationCache) (refs : next.refs = [])
      (stays : next.leaving? = none)
      : RegionEffect server call new next
  | invalidate {call next : CacheCall} {new : SentinelServer} (topic : GoString)
      (same : new = server.invalidateCache topic) (refs : next.refs = [])
      (stays : next.leaving? = none)
      : RegionEffect server call new next
  | add {call next : CacheCall} {new : SentinelServer} (info : BrokerInfo)
      (locks : call.locks = true) (fresh : server.brokers.lookup info.brokerID = none)
      (same : new = server.addBroker info) (refs : next.refs = []) (stays : next.leaving? = none)
      : RegionEffect server call new next
  | announce {brokerID : GoString} {hashRing : HashRing} (ref : BrokerRef)
      (known : server.brokers.lookup brokerID = some ref)
      : RegionEffect server (.unregisterBroker brokerID) { server with hashRing }
          (.unregistering brokerID (server.record ref).topics)
  | release {brokerID topic : GoString} {rest : List GoString}
      : RegionEffect server (.unregistering brokerID (topic :: rest))
          (server.invalidateCache topic) (.unregistering brokerID rest)
  | remove {brokerID : GoString} {ack : Ack}
      : RegionEffect server (.unregistering brokerID [])
          { server with brokers := server.brokers.erase brokerID } (.acknowledged ack)
  | query {query : LeaderQuery} {phase next : QueryPhase} {new : SentinelServer}
      (effect : server.QueryEffect query phase new next)
      : RegionEffect server (.query query phase) new (.query query next)

theorem cacheRegion_effect (server : SentinelServer) (choice : Nat) (call : CacheCall)
    : server.RegionEffect call (server.cacheRegion choice call).1
        (server.cacheRegion choice call).2 := by
  have modified (ref : BrokerRef) {change : BrokerInfo → BrokerInfo} {next : CacheCall}
      (keeps : ∀ info, (change info).brokerID = info.brokerID) (refs : next.refs = [])
      (stays : next.leaving? = none)
      : server.RegionEffect call (server.modifyRecord ref change) next :=
    .quiet (server.membership_modifyRecord ref keeps) rfl refs stays
  cases call with
  | registerBroker now brokerID address topics =>
      simp only [cacheRegion]
      split
      · exact .quiet rfl rfl rfl rfl
      · next fresh => exact .add _ rfl (Option.not_isSome_iff_eq_none.mp fresh) rfl rfl rfl
  | registering topics =>
      cases topics with
      | nil => exact .quiet rfl rfl rfl rfl
      | cons topic rest => exact .invalidate topic rfl rfl rfl
  | keepAlive now brokerID address =>
      simp only [cacheRegion]
      split
      · next fresh => exact .add _ rfl fresh rfl rfl rfl
      · exact .quiet rfl rfl rfl rfl
  | keepingAlive now ref address => exact modified ref (fun _ => rfl) rfl rfl
  | unregisterBroker brokerID =>
      simp only [cacheRegion]
      split
      · exact .quiet rfl rfl rfl rfl
      · next ref known => exact .announce ref known
  | unregistering brokerID topics =>
      cases topics with
      | nil => exact .remove
      | cons topic rest => exact .release
  | checking now refs topics =>
      simp only [cacheRegion]
      split
      · exact modified _ (fun _ => rfl) rfl rfl
      · split
        · exact .quiet rfl rfl rfl rfl
        · exact .quiet rfl rfl rfl rfl
  | expiring topics =>
      simp only [cacheRegion]
      split
      · exact .invalidate _ rfl rfl rfl
      · split
        · exact .quiet rfl rfl rfl rfl
        · exact .quiet rfl rfl rfl rfl
  | query query phase => exact .query (server.queryRegion_effect query phase)
  | _ => exact .quiet rfl rfl rfl rfl

end SentinelServer

section View

variable {calls : List CacheCall} {call next : CacheCall} {i : Nat}

def heldBy (calls : List CacheCall) : Set BrokerRef := { ref | ∃ call ∈ calls, ref ∈ call.refs }

def leavingIn (calls : List CacheCall) : Set (GoString × Set GoString) :=
  { entry | ∃ topics, .unregistering entry.1 topics ∈ calls ∧ entry.2 = { topic | topic ∈ topics } }

section

variable (found : calls[i]? = some call)
include found

theorem heldBy_set
    : heldBy (calls.set i next) ⊆ { ref | ref ∈ next.refs } ∪ heldBy calls := by
  rintro ref ⟨other, member, held⟩
  rcases Pool.mem_set found member with rfl | before
  · exact Or.inl held
  · exact Or.inr ⟨other, before, held⟩

/-- A call that takes no new broker adds none. -/
theorem heldBy_set_subset (refs : next.refs ⊆ call.refs)
    : heldBy (calls.set i next) ⊆ heldBy calls := by
  intro ref member
  rcases heldBy_set found member with here | before
  · exact ⟨call, mem_of_getElem? found, refs here⟩
  · exact before

theorem leavingIn_set {entry : GoString × Set GoString}
    (member : entry ∈ leavingIn (calls.set i next))
    : (∃ topics, next = .unregistering entry.1 topics ∧ entry.2 = { topic | topic ∈ topics })
      ∨ entry ∈ leavingIn calls := by
  obtain ⟨topics, present, same⟩ := member
  rcases Pool.mem_set found present with now | before
  · exact Or.inl ⟨topics, now.symm, same⟩
  · exact Or.inr ⟨topics, before, same⟩

theorem leavingIn_set_subset (stays : next.leaving? = none)
    : leavingIn (calls.set i next) ⊆ leavingIn calls := by
  intro entry member
  rcases leavingIn_set found member with ⟨topics, rfl, _⟩ | before
  · cases stays
  · exact before

end

/-- Whoever unregisters a broker holds the server's lock. -/
theorem leavingIn_eq_empty (free : calls.any CacheCall.holds = false) : leavingIn calls = ∅ := by
  refine Set.eq_empty_of_forall_notMem (fun entry member => ?_)
  obtain ⟨topics, present, _⟩ := member
  exact absurd rfl (any_eq_false.mp free _ present)

end View

namespace SentinelServer

def cachedRefs (server : SentinelServer) (topic : GoString) : Set BrokerRef :=
  { ref | ∃ cache, server.replicationCache.lookup topic = some cache ∧ ref ∈ cache.brokers }

theorem cachedRefs_cached? {server : SentinelServer} {query : LeaderQuery}
    {refs : List BrokerRef} (found : query.cached? server = some refs)
    : server.cachedRefs query.topic = { ref | ref ∈ refs } := by
  unfold LeaderQuery.cached? at found
  cases known : server.replicationCache.lookup query.topic with
  | none => simp [known] at found
  | some cache =>
      simp only [known, Option.ite_none_right_eq_some, Option.some.injEq] at found
      ext ref
      simp [cachedRefs, known, found.2]

variable (server : SentinelServer)

theorem cachedRefs_invalidateCache (gone : GoString)
    : (server.invalidateCache gone).cachedRefs gone = ∅ := by
  refine Set.eq_empty_of_forall_notMem ?_
  rintro ref ⟨cache, found, _⟩
  rw [invalidateCache, AList.lookup_erase] at found
  cases found

theorem cachedRefs_invalidateCache_subset (gone topic : GoString)
    : (server.invalidateCache gone).cachedRefs topic ⊆ server.cachedRefs topic := by
  by_cases here : topic = gone
  · rw [here, cachedRefs_invalidateCache]
    exact Set.empty_subset _
  · rintro ref ⟨cache, found, member⟩
    exact ⟨cache, (AList.lookup_erase_ne here).symm.trans found, member⟩

theorem cachedRefs_storeCache (topic : GoString) (stored : List BrokerRef) (replicaCount : Nat)
    : (World.storeCache server topic stored replicaCount).cachedRefs topic
      = { ref | ref ∈ stored } := by
  ext ref
  simp [cachedRefs, World.storeCache]

theorem cachedRefs_storeCache_of_ne {topic other : GoString} (different : other ≠ topic)
    (stored : List BrokerRef) (replicaCount : Nat)
    : (World.storeCache server topic stored replicaCount).cachedRefs other
      = server.cachedRefs other := by
  ext ref
  simp only [cachedRefs, World.storeCache, AList.lookup_insert_ne different]

end SentinelServer

namespace CacheSystem

def view (system : CacheSystem) : Referrals.State GoString BrokerRef GoString where
  table := fun brokerID => system.server.brokers.lookup brokerID
  cached := system.server.cachedRefs
  held := heldBy system.calls
  leaving := leavingIn system.calls

variable {system : CacheSystem}

theorem view_released {ref : BrokerRef} {topics : List GoString}
    (released : system.released ref topics = true)
    : system.view.Released ref { topic | topic ∈ topics } := by
  simp only [CacheSystem.released, Bool.and_eq_true, all_eq_true, decide_eq_true_eq] at released
  obtain ⟨caches, calls⟩ := released
  refine ⟨?_, ?_⟩
  · rintro topic ⟨cache, found, member⟩
    exact (caches ⟨topic, cache⟩ (AList.mem_lookup_iff.mp found)).resolve_left (· member)
  · rintro ⟨call, present, held⟩
    exact calls call present held

theorem not_leaves {ref : BrokerRef} (stays : system.leaves ref = false) {brokerID : GoString}
    {topics : Set GoString} (announced : (brokerID, topics) ∈ system.view.leaving)
    : system.view.table brokerID ≠ some ref := by
  obtain ⟨_, present, _⟩ := announced
  have other := any_eq_false.mp stays _ present
  simpa [CacheCall.leaving?, view] using other

/-- A call that begins with the server's lock runs when nobody is being unregistered. -/
theorem free_of_locks {call : CacheCall} (runs : system.canRun call = true)
    (locks : call.locks = true)
    : leavingIn system.calls = ∅ := by
  refine leavingIn_eq_empty ?_
  simp only [canRun, locks, Bool.true_and, Bool.and_eq_true, Bool.not_eq_true'] at runs
  exact runs.1

variable {i : Nat}

theorem query_step {query : LeaderQuery} {phase next : QueryPhase} {new : SentinelServer}
    (effect : system.server.QueryEffect query phase new next)
    (found : system.calls[i]? = some (.query query phase))
    (runs : system.canRun (.query query phase) = true)
    (allowed : system.allows (.query query phase) = true)
    : Step system.view (view ⟨new, system.calls.set i (.query query next)⟩) := by
  have leaving
      : leavingIn (system.calls.set i (.query query next)) ⊆ leavingIn system.calls :=
    leavingIn_set_subset found rfl
  cases effect with
  | keep membership caches refs =>
      have table : new.brokers = system.server.brokers := congrArg Membership.brokers membership
      refine .drop ?_ leaving ⟨fun topic => ?_, heldBy_set_subset found refs⟩
      · simp only [view, table]
      · simp only [view, SentinelServer.cachedRefs, caches]
        exact subset_rfl
  | look brokerID ref locks known same refs =>
      subst same
      refine .look brokerID ref known rfl ?_ (fun topic => subset_rfl) ?_
      · exact Set.subset_empty_iff.mp (leaving.trans (free_of_locks runs locks).subset)
      · intro other member
        rcases heldBy_set found member with here | before
        · rcases mem_cons.mp (refs here) with rfl | had
          · exact Set.mem_insert other _
          · exact Set.mem_insert_of_mem ref ⟨_, mem_of_getElem? found, had⟩
        · exact Set.mem_insert_of_mem ref before
  | read cached reads known reports same refs =>
      subst same reads
      have filled := SentinelServer.cachedRefs_cached? known
      simp only [allows, known, decide_eq_false reports, Bool.false_or, Option.all_some,
        all_eq_true, Bool.not_eq_true'] at allowed
      refine .read query.topic ?_ rfl leaving (fun topic => subset_rfl) ?_
      · intro key topics announced ref member
        exact not_leaves (allowed ref (filled.subset member)) announced
      · intro ref member
        rcases heldBy_set found member with here | before
        · exact Or.inr (filled.superset (refs here))
        · exact Or.inl before
  | store stored has caches refs =>
      subst caches
      refine .store query.topic rfl leaving ?_ (fun other different => ?_)
        (heldBy_set_subset found refs)
      · exact fun ref member => ⟨_, mem_of_getElem? found,
          has ((SentinelServer.cachedRefs_storeCache _ _ _ _).subset member)⟩
      · exact (SentinelServer.cachedRefs_storeCache_of_ne _ different _ _).subset

/-- What a region of a call does to the table and the references to it. -/
theorem region_step {call next : CacheCall} {new : SentinelServer}
    (effect : system.server.RegionEffect call new next) (found : system.calls[i]? = some call)
    (runs : system.canRun call = true) (allowed : system.allows call = true)
    : Step system.view (view ⟨new, system.calls.set i next⟩) := by
  cases effect with
  | quiet membership caches refs stays =>
      have table : new.brokers = system.server.brokers := congrArg Membership.brokers membership
      refine .drop ?_ (leavingIn_set_subset found stays)
        ⟨fun topic => ?_, heldBy_set_subset found (refs ▸ nil_subset _)⟩
      · simp only [view, table]
      · simp only [view, SentinelServer.cachedRefs, caches]
        exact subset_rfl
  | invalidate topic same refs stays =>
      subst same
      exact .drop rfl (leavingIn_set_subset found stays)
        ⟨system.server.cachedRefs_invalidateCache_subset topic,
          heldBy_set_subset found (refs ▸ nil_subset _)⟩
  | add info locks fresh same refs stays =>
      subst same
      refine .grow ?_ ?_ ⟨fun topic => subset_rfl, heldBy_set_subset found (refs ▸ nil_subset _)⟩
      · intro brokerID ref known
        refine (AList.lookup_insert_ne ?_).trans known
        rintro rfl
        cases fresh.symm.trans known
      · exact Set.subset_empty_iff.mp
          ((leavingIn_set_subset found stays).trans (free_of_locks runs locks).subset)
  | @announce brokerID hashRing ref known =>
      simp only [allows, known, Option.all_some] at allowed
      refine .announce brokerID { topic | topic ∈ (system.server.record ref).topics } ?_ rfl ?_
        ⟨fun topic => subset_rfl, heldBy_set_subset found (List.Subset.refl _)⟩
      · intro other same
        cases known.symm.trans same
        exact view_released allowed
      · rintro ⟨other, topics⟩ member
        rcases leavingIn_set found member with ⟨announced, same, rfl⟩ | before
        · cases same
          rfl
        · rw [free_of_locks runs rfl] at before
          cases before
  | @release brokerID topic rest =>
      refine .invalidate brokerID topic { other | other ∈ rest }
        ⟨topic :: rest, mem_of_getElem? found, ?_⟩ rfl ?_
        (system.server.cachedRefs_invalidateCache topic)
        ⟨system.server.cachedRefs_invalidateCache_subset topic,
          heldBy_set_subset found (List.Subset.refl _)⟩
      · ext other
        simp
      · rintro ⟨other, topics⟩ member
        rcases leavingIn_set found member with ⟨announced, same, rfl⟩ | before
        · cases same
          exact Set.mem_insert _ _
        · exact Set.mem_insert_of_mem _ before
  | @remove brokerID =>
      refine .go brokerID ⟨[], mem_of_getElem? found, ?_⟩ (AList.lookup_erase _ _)
        (fun other different => AList.lookup_erase_ne different)
        (leavingIn_set_subset found rfl)
        ⟨fun topic => subset_rfl, heldBy_set_subset found (List.Subset.refl _)⟩
      simp
  | query effect => exact query_step effect found runs allowed

end CacheSystem

namespace SentinelServer

def Led (server : SentinelServer) : Prop :=
  ∀ topic cache, server.replicationCache.lookup topic = some cache
    → ∀ ref, cache.leader = some ref → ref ∈ cache.brokers

variable {server : SentinelServer}

theorem Led.invalidateCache (led : server.Led) (gone : GoString)
    : (server.invalidateCache gone).Led := by
  intro topic cache found
  by_cases here : topic = gone
  · rw [here, SentinelServer.invalidateCache, AList.lookup_erase] at found
    cases found
  · exact led topic cache ((AList.lookup_erase_ne here).symm.trans found)

theorem Led.storeCache (led : server.Led) (stored : GoString) (refs : List BrokerRef)
    (replicaCount : Nat)
    : (World.storeCache server stored refs replicaCount).Led := by
  intro topic cache found ref leads
  by_cases here : topic = stored
  · subst here
    cases (AList.lookup_insert _).symm.trans found
    exact mem_of_head? leads
  · exact led topic cache ((AList.lookup_insert_ne here).symm.trans found) ref leads

variable {new : SentinelServer} {call next : CacheCall}

theorem RegionEffect.led (effect : server.RegionEffect call new next) (led : server.Led)
    : new.Led := by
  cases effect with
  | quiet membership caches refs stays => rwa [Led, caches]
  | invalidate topic same refs stays => exact same ▸ led.invalidateCache topic
  | add info locks fresh same refs stays => exact same ▸ led
  | announce | remove => exact led
  | release => exact led.invalidateCache _
  | query effect =>
      cases effect with
      | keep membership caches refs => rwa [Led, caches]
      | look brokerID ref locks found same refs => exact same ▸ led
      | read cached reads found reports same refs => exact same ▸ led
      | store stored has caches refs => exact caches ▸ led.storeCache _ stored _

theorem RegionEffect.keyed (effect : server.RegionEffect call new next)
    (keyed : server.membership.Keyed)
    : new.membership.Keyed := by
  cases effect with
  | quiet membership caches refs stays => rwa [membership]
  | invalidate topic same refs stays => exact same ▸ keyed
  | add info locks fresh same refs stays =>
      rw [same, membership_addBroker]
      exact keyed.change (.add info.brokerID)
  | announce | release => exact keyed
  | @remove brokerID => exact keyed.change (.drop brokerID)
  | query effect =>
      cases effect with
      | keep membership caches refs => rwa [membership]
      | look brokerID ref locks found same refs => exact same ▸ keyed
      | read cached reads found reports same refs => exact same ▸ keyed
      | store stored has caches refs => exact caches ▸ keyed

end SentinelServer

namespace CacheSystem

structure Consistent (system : CacheSystem) : Prop where
  keyed : system.server.membership.Keyed
  led : system.server.Led
  sound : system.view.Sound

theorem Consistent.new : new.Consistent where
  keyed := fun brokerID ref found => by cases found
  led := fun topic cache found => by cases found
  sound :=
    { cached := fun topic ref member => by
        obtain ⟨cache, found, _⟩ := member
        cases found
      held := fun ref member => by
        obtain ⟨call, present, _⟩ := member
        cases present
      released := fun brokerID topics member => by
        obtain ⟨_, present, _⟩ := member
        cases present }

/-- A new call refers to no broker and unregisters none yet. -/
theorem start_step (system : CacheSystem) (request : CacheRequest)
    : Step system.view (system.step (.start request)).view := by
  refine .drop rfl ?_ ⟨fun topic => subset_rfl, ?_⟩
  · rintro entry ⟨topics, present, same⟩
    rcases mem_append.mp present with before | now
    · exact ⟨topics, before, same⟩
    · cases request <;> cases mem_singleton.mp now
  · rintro ref ⟨call, present, held⟩
    rcases mem_append.mp present with before | now
    · exact ⟨call, before, held⟩
    · rw [mem_singleton.mp now] at held
      cases request <;> cases held

theorem Consistent.step {system : CacheSystem} (h : system.Consistent) {action : CacheAction}
    (releases : system.releases action = true)
    : (system.step action).Consistent := by
  cases action with
  | start request => exact ⟨h.keyed, h.led, (system.start_step request).sound h.sound⟩
  | advance i choice =>
      simp only [CacheSystem.step]
      cases found : system.calls[i]? with
      | none => exact h
      | some call =>
          simp only
          split
          · next runs =>
              have allowed : system.allows call = true := by
                simpa [CacheSystem.releases, found, runs] using releases
              have effect := system.server.cacheRegion_effect choice call
              exact {
                keyed := effect.keyed h.keyed
                led := effect.led h.led
                sound := (region_step effect found runs allowed).sound h.sound
              }
          · exact h

theorem Consistent.cachesRegistered {system : CacheSystem} (h : system.Consistent)
    : system.server.CachesRegistered := by
  intro topic cache found ref member
  have cached : ref ∈ cache.brokers := member.elim id (h.led topic cache found ref)
  obtain ⟨brokerID, known⟩ := h.sound.cached topic ref ⟨cache, found, cached⟩
  exact SentinelServer.record_brokerID h.keyed known ▸ known

/-- Whenever no query is in progress, cached brokers are registered, in every run in which brokers
are released before they leave.
-/
theorem cachesRegistered_of_releases (actions : List CacheAction)
    (released
      : AllSteps step (fun system action => system.releases action = true) .new actions)
    : ∀ visited ∈ actions.scanl step .new, visited.Idle → visited.server.CachesRegistered := by
  have consistent : ∀ visited ∈ actions.scanl step .new, visited.Consistent :=
    released.always (fun system action releases h => h.step releases) .new
  exact fun visited member _ => (consistent visited member).cachesRegistered

/-- A query for one replica is served by the first node of the ring, and meets the condition. -/
theorem oneReplica_run {server : SentinelServer} {ack : SentinelServer.Ack}
    {topic name : GoString} {ref : BrokerRef}
    (uncached : server.replicationCache.lookup topic = none)
    (first : ((server.hashRing.getNodeIter topic).next server.hashRing).1 = (name, none))
    (named : name ≠ []) (known : server.brokers.lookup name = some ref)
    (healthy : (server.record ref).status = .healthy)
    : AllSteps step (fun system action => system.releases action = true)
          ⟨server, [.acknowledged ack]⟩
          (.start (.getTopicLeader topic 1 []) :: List.replicate 9 (.advance 1 0))
      ∧ (.start (.getTopicLeader topic 1 []) :: List.replicate 9 (.advance 1 0)).foldl step
          ⟨server, [.acknowledged ack]⟩
        = ⟨World.storeCache server topic [ref] 1,
            [.acknowledged ack, .query ⟨topic, 1, []⟩ .answered]⟩ := by
  simp [AllSteps, step, canRun, releases, allows, CacheRequest.call, SentinelServer.cacheRegion,
    SentinelServer.queryRegion, CacheCall.locks, CacheCall.holds, CacheCall.locksTopic,
    CacheCall.holdsTopic, QueryPhase.holdsTopic, QueryPhase.locks, LeaderQuery.cached?, uncached,
    first, named, known, healthy, LeaderQuery.selected, LeaderQuery.ended, List.replicate]

def comes (topics : List GoString) : List CacheAction :=
  .start (.registerBroker 0 (lit "a") (lit "a:1") topics) :: List.replicate 3 (.advance 0 0)

def serves : List CacheAction :=
  .start (.getTopicLeader (lit "t") 1 []) :: List.replicate 9 (.advance 1 0)

def goes : List CacheAction :=
  .start (.unregisterBroker (lit "a")) :: List.replicate 3 (.advance 2 0)

def joined (topics : List GoString) : SentinelServer :=
  ((SentinelServer.newSentinelServer none).registerBroker 0 (lit "a") (lit "a:1") topics
    .none).state

def served (topics : List GoString) : CacheSystem where
  server := World.storeCache (joined topics) (lit "t") [0] 1
  calls := [
    .acknowledged { success := true, errorMessage := [] },
    .query ⟨lit "t", 1, []⟩ .answered]

/-- The topic of the cache is declared: it loses its cache before the broker goes. -/
theorem cachesRegistered_declared
    : (served [lit "t"]).server.cachedRefs (lit "t") = { ref | ref ∈ [0] }
      ∧ ∀ visited ∈ (comes [lit "t"] ++ serves ++ goes).scanl step .new,
          visited.Idle → visited.server.CachesRegistered := by
  refine ⟨SentinelServer.cachedRefs_storeCache _ _ _ _, cachesRegistered_of_releases _ ?_⟩
  have came
      : (comes [lit "t"]).foldl step .new
        = ⟨joined [lit "t"], [.acknowledged { success := true, errorMessage := [] }]⟩ := rfl
  have asked := @oneReplica_run (joined [lit "t"]) { success := true, errorMessage := [] } (lit "t")
    (lit "a") 0 rfl (NodeIterator.next_addNode_new (by decide) _ _) (by decide) rfl rfl
  refine .append (.append ?_ ?_) ?_
  · decide +kernel
  · rw [came]
    exact asked.1
  · rw [foldl_append, came, serves, asked.2]
    decide +kernel

/-- Nothing is declared: the broker is gone, and the cache of the topic still has it. -/
theorem not_cachesRegistered_undeclared
    : ∃ visited ∈ (comes [] ++ serves ++ goes).scanl step .new,
        visited.Idle ∧ ¬visited.server.CachesRegistered := by
  have came
      : (comes []).foldl step .new
        = ⟨joined [], [.acknowledged { success := true, errorMessage := [] }]⟩ := rfl
  have asked := @oneReplica_run (joined []) { success := true, errorMessage := [] } (lit "t")
    (lit "a") 0 rfl (NodeIterator.next_addNode_new (by decide) _ _) (by decide) rfl rfl
  have ended : (comes [] ++ serves ++ goes).foldl step .new = goes.foldl step (served []) := by
    rw [foldl_append, foldl_append, came, serves, asked.2]
    rfl
  refine ⟨goes.foldl step (served []), ended ▸ foldl_mem_scanl step .new _, ?_, ?_⟩
  · decide +kernel
  · intro registered
    have still := registered (lit "t") ⟨[0], 1, 1, some 0⟩ rfl 0 (Or.inl mem_cons_self)
    cases still

end CacheSystem

end Goulette.Sentinel
