import Goulette.Sentinel.CachedReplicas

/-! The versions of a topic's replica cache in a sentinel without etcd. Their counter stands beside
the lock of the topic and survives invalidations of the cache.
-/

namespace Goulette.Sentinel

open Goulette.Go Runs List

variable {query : LeaderQuery} {phase : QueryPhase} {call : CacheCall} {actions : List CacheAction}

namespace QueryPhase

def selecting : QueryPhase → Bool
  | .iterate | .next _ | .lookup _ _ | .check _ _ | .store _ => true
  | _ => false

def replacing : QueryPhase → Bool
  | .mark _ | .marking _ _ | .reiterate _ | .replaceNext _ | .replaceLookup _ _
  | .replaceCheck _ _ | .storeAgain _ => true
  | _ => false

end QueryPhase

namespace CacheCall

def stores (topic : GoString) : CacheCall → Bool
  | .query asked (.store _) => asked.topic = topic
  | .query asked (.storeAgain _) => asked.topic = topic
  | _ => false

def invalidates (choice : Nat) : CacheCall → Option GoString
  | .registering (topic :: _) => some topic
  | .unregistering _ (topic :: _) => some topic
  | .expiring topics => topics[choice]?
  | _ => none

def selects (topic : GoString) : CacheCall → Bool
  | .query asked phase => asked.topic = topic && phase.selecting
  | _ => false

/-- Only a query that reports brokers replaces any. -/
def reporting : CacheCall → Bool
  | .query asked phase => !phase.replacing || asked.unreachable ≠ []
  | _ => true

def alike (topic : GoString) (replicaCount : Nat) : CacheCall → Bool
  | .query asked phase =>
      !(phase.inProgress && asked.topic = topic)
        || (asked.replicaCount = replicaCount && asked.unreachable = [])
  | _ => true

end CacheCall

theorem CacheCall.agree_of_alike {topic : GoString} {replicaCount : Nat}
    (alike : (CacheCall.query query phase).alike topic replicaCount = true)
    (progress : phase.inProgress = true) (named : query.topic = topic)
    : query.replicaCount = replicaCount ∧ query.unreachable = [] := by
  simpa [CacheCall.alike, progress, named] using alike

namespace CacheSystem

def running (system : CacheSystem) : CacheAction → Option CacheCall
  | .start _ => none
  | .advance i _ => (system.calls[i]?).filter (fun call => system.canRun call)

def stored? (topic : GoString) (system : CacheSystem) (action : CacheAction)
    : Option ReplicationCache :=
  if (system.running action).any (CacheCall.stores topic) then
    (system.step action).server.replicationCache.lookup topic
  else none

def invalidates (system : CacheSystem) : CacheAction → Option GoString
  | .start _ => none
  | .advance i choice => (system.running (.advance i choice)).bind (CacheCall.invalidates choice)

def stored (topic : GoString) : CacheSystem → List CacheAction → List ReplicationCache
  | _, [] => []
  | system, action :: rest =>
      (system.stored? topic action).toList ++ stored topic (system.step action) rest

/-- All queries for the topic agree, and its cache is not invalidated. -/
def Agrees (topic : GoString) (replicaCount : Nat) (system : CacheSystem) (action : CacheAction)
    : Prop :=
  (∀ call ∈ system.calls, call.alike topic replicaCount = true)
  ∧ system.invalidates action ≠ some topic

end CacheSystem

namespace SentinelServer

variable {server new : SentinelServer} {topic : GoString} {choice : Nat} {call : CacheCall}

/-- A region leaves the version and the cache of a topic alone, invalidates the cache or stores one
with the next version.
-/
inductive TopicEffect (server : SentinelServer) (topic : GoString) (choice : Nat)
    (call : CacheCall) (new : SentinelServer)
    : Prop
  | keep (quiet : call.stores topic = false)
      (version : new.topicLocks.lookup topic = server.topicLocks.lookup topic)
      (cache : new.replicationCache.lookup topic = server.replicationCache.lookup topic)
  | invalidate (quiet : call.stores topic = false) (names : call.invalidates choice = some topic)
      (version : new.topicLocks.lookup topic = server.topicLocks.lookup topic)
      (gone : new.replicationCache.lookup topic = none)
  | store (stores : call.stores topic = true) (refs : List BrokerRef) (replicaCount : Nat)
      (same : new = World.storeCache server topic refs replicaCount)

theorem TopicEffect.of_tables (quiet : call.stores topic = false)
    (versions : new.topicLocks = server.topicLocks)
    (caches : new.replicationCache = server.replicationCache)
    : server.TopicEffect topic choice call new :=
  .keep quiet (by rw [versions]) (by rw [caches])

theorem TopicEffect.of_invalidate {gone : GoString} (quiet : call.stores topic = false)
    (names : call.invalidates choice = some gone)
    : server.TopicEffect topic choice call (server.invalidateCache gone) := by
  by_cases here : topic = gone
  · subst here
    exact .invalidate quiet names rfl (AList.lookup_erase _ _)
  · exact .keep quiet rfl (AList.lookup_erase_ne here)

theorem TopicEffect.of_store
    (stores : (CacheCall.query query phase).stores topic = decide (query.topic = topic))
    (refs : List BrokerRef)
    : server.TopicEffect topic choice (.query query phase)
        (World.storeCache server query.topic refs query.replicaCount) := by
  by_cases here : query.topic = topic
  · subst here
    exact .store (stores.trans (decide_eq_true rfl)) refs query.replicaCount rfl
  · exact .keep (stores.trans (decide_eq_false here)) (AList.lookup_insert_ne (Ne.symm here))
      (AList.lookup_insert_ne (Ne.symm here))

theorem updateBrokerStatus_tables (server : SentinelServer) (brokerID : GoString)
    (status : BrokerStatus)
    : (server.updateBrokerStatus [brokerID] status).topicLocks = server.topicLocks
      ∧ (server.updateBrokerStatus [brokerID] status).replicationCache
        = server.replicationCache := by
  simp only [updateBrokerStatus, foldl_cons, foldl_nil]
  split
  · exact ⟨rfl, rfl⟩
  · exact ⟨rfl, rfl⟩

theorem queryRegion_topicEffect (server : SentinelServer) (topic : GoString) (choice : Nat)
    (query : LeaderQuery) (phase : QueryPhase)
    : server.TopicEffect topic choice (.query query phase) (server.queryRegion query phase).1 := by
  cases phase with
  | store chosen => exact .of_store rfl chosen
  | storeAgain refs => exact .of_store rfl refs
  | marking current brokerIDs =>
      cases brokerIDs with
      | nil =>
          simp only [queryRegion]
          split
          · exact .of_tables rfl rfl rfl
          · exact .of_tables rfl rfl rfl
      | cons brokerID rest =>
          obtain ⟨versions, caches⟩ := server.updateBrokerStatus_tables brokerID .down
          exact .of_tables rfl versions caches
  | readCache | next _ | lookup _ _ | check _ _ | replaceNext _ | replaceLookup _ _
  | replaceCheck _ _ =>
      simp only [queryRegion]
      repeat' split
      all_goals exact .of_tables rfl rfl rfl
  | _ => exact .of_tables rfl rfl rfl

theorem cacheRegion_topicEffect (server : SentinelServer) (topic : GoString) (choice : Nat)
    (call : CacheCall)
    : server.TopicEffect topic choice call (server.cacheRegion choice call).1 := by
  cases call with
  | registering topics =>
      cases topics with
      | nil => exact .of_tables rfl rfl rfl
      | cons first rest => exact .of_invalidate rfl rfl
  | unregistering brokerID topics =>
      cases topics with
      | nil => exact .of_tables rfl rfl rfl
      | cons first rest => exact .of_invalidate rfl rfl
  | expiring topics =>
      simp only [cacheRegion]
      split
      · next gone named => exact .of_invalidate rfl named
      · exact .of_tables rfl rfl rfl
  | query query phase => exact server.queryRegion_topicEffect topic choice query phase
  | registerBroker now brokerID address topics | keepAlive now brokerID address
  | unregisterBroker brokerID | checking now refs topics =>
      simp only [cacheRegion]
      split
      all_goals exact .of_tables rfl rfl rfl
  | _ => exact .of_tables rfl rfl rfl

end SentinelServer

namespace CacheSystem

variable {topic : GoString} {system : CacheSystem} {action : CacheAction}

/-- A call waits, or runs its next region. -/
theorem advance_cases (system : CacheSystem) (i choice : Nat)
    : (system.running (.advance i choice) = none ∧ system.step (.advance i choice) = system)
      ∨ ∃ call,
          system.calls[i]? = some call
          ∧ system.canRun call = true
          ∧ system.running (.advance i choice) = some call
          ∧ system.step (.advance i choice)
            = { server := (system.server.cacheRegion choice call).1
                calls := system.calls.set i (system.server.cacheRegion choice call).2 } := by
  simp only [running, step]
  cases found : system.calls[i]? with
  | none => exact Or.inl ⟨rfl, rfl⟩
  | some call =>
      cases runs : system.canRun call with
      | false => exact Or.inl ⟨by simp [runs], by simp [runs]⟩
      | true => exact Or.inr ⟨call, rfl, runs, by simp [runs], by simp [runs]⟩

/-- What a step does to a topic, in terms of the caches that are stored. -/
inductive TopicStep (topic : GoString) (system : CacheSystem) (action : CacheAction) : Prop
  | keep (quiet : system.stored? topic action = none)
      (version
        : (system.step action).server.topicLocks.lookup topic
          = system.server.topicLocks.lookup topic)
      (cache
        : (system.step action).server.replicationCache.lookup topic
          = system.server.replicationCache.lookup topic)
  | invalidate (quiet : system.stored? topic action = none)
      (names : system.invalidates action = some topic)
      (version
        : (system.step action).server.topicLocks.lookup topic
          = system.server.topicLocks.lookup topic)
      (gone : (system.step action).server.replicationCache.lookup topic = none)
  | store (cache : ReplicationCache) (stores : system.stored? topic action = some cache)
      (next : cache.version = (system.server.topicLocks.lookup topic).getD 0 + 1)
      (version : (system.step action).server.topicLocks.lookup topic = some cache.version)
      (cached : (system.step action).server.replicationCache.lookup topic = some cache)

theorem stored?_of_idle (idle : system.running action = none)
    : system.stored? topic action = none := by
  rw [stored?, idle, Option.any_none, if_neg Bool.false_ne_true]

theorem stored?_of_quiet (running : system.running action = some call)
    (quiet : call.stores topic = false)
    : system.stored? topic action = none := by
  rw [stored?, running, Option.any_some, quiet, if_neg Bool.false_ne_true]

theorem topicStep (topic : GoString) (system : CacheSystem) (action : CacheAction)
    : TopicStep topic system action := by
  cases action with
  | start request => exact .keep (stored?_of_idle rfl) rfl rfl
  | advance i choice =>
      rcases system.advance_cases i choice with ⟨idle, same⟩ | ⟨call, found, runs, running, stepped⟩
      · exact .keep (stored?_of_idle idle) (by rw [same]) (by rw [same])
      have server
          : (system.step (.advance i choice)).server
            = (system.server.cacheRegion choice call).1 := by
        rw [stepped]
      cases system.server.cacheRegion_topicEffect topic choice call with
      | keep stores version cache =>
          exact .keep (stored?_of_quiet running stores) (server ▸ version) (server ▸ cache)
      | invalidate stores names version gone =>
          refine .invalidate (stored?_of_quiet running stores) ?_ (server ▸ version) (server ▸ gone)
          rw [invalidates, running, Option.bind_some, names]
      | store stores refs replicaCount same =>
          rw [same] at server
          refine .store { brokers := refs, version := _, replicaCount, leader := refs.head? } ?_ rfl
            ?_ ?_
          · rw [stored?, running, Option.any_some, stores, if_pos rfl, server]
            exact AList.lookup_insert _
          · rw [server]
            exact AList.lookup_insert _
          · rw [server]
            exact AList.lookup_insert _

/-- The caches stored for a topic are numbered from one on, the counter shows the last number, and
what is cached is one of them.
-/
structure Versions (topic : GoString) (past : List ReplicationCache) (server : SentinelServer)
    : Prop where
  numbers
    : past.map (fun cache => cache.version.toInt)
      = (List.range past.length).map (fun i : Nat => (i : Int) + 1)
  counter : ((server.topicLocks.lookup topic).getD 0).toInt = past.length
  cached : ∀ cache, server.replicationCache.lookup topic = some cache → cache ∈ past

theorem Versions.new (topic : GoString) : Versions topic [] CacheSystem.new.server where
  numbers := rfl
  counter := rfl
  cached := fun cache found => by cases found

theorem Versions.step {past : List ReplicationCache} (h : Versions topic past system.server)
    (room : (past ++ (system.stored? topic action).toList).length < 2 ^ 63)
    : Versions topic (past ++ (system.stored? topic action).toList)
        (system.step action).server := by
  cases topicStep topic system action with
  | keep quiet version cache =>
      rw [quiet, Option.toList_none, append_nil]
      exact {
        numbers := h.numbers
        counter := by rw [version]; exact h.counter
        cached := by rw [cache]; exact h.cached
      }
  | invalidate quiet names version gone =>
      rw [quiet, Option.toList_none, append_nil]
      refine { numbers := h.numbers, counter := by rw [version]; exact h.counter, cached := ?_ }
      intro cache found
      rw [gone] at found
      cases found
  | store cache stores next version cached =>
      rw [stores, Option.toList_some] at room ⊢
      rw [length_append, length_singleton] at room
      have number : cache.version.toInt = past.length + 1 := by
        rw [next, toInt_succ (by rw [h.counter]; omega), h.counter]
      exact {
        numbers := by
          rw [map_append, h.numbers, length_append, length_singleton,
            range_succ, map_append, map_singleton, map_singleton, number]
        counter := by
          rw [version, Option.getD_some, number, length_append, length_singleton]
          omega
        cached := by
          intro other found
          rw [cached, Option.some_inj] at found
          rw [← found]
          exact mem_append_right _ (mem_singleton_self _)
      }

/-- A run stays numbered, and whatever it shows was stored, by induction on its steps. -/
theorem Versions.run {past : List ReplicationCache} (h : Versions topic past system.server)
    (room : (past ++ stored topic system actions).length < 2 ^ 63)
    : ((past ++ stored topic system actions).map (fun cache => cache.version.toInt)
        = (List.range (past ++ stored topic system actions).length).map
            (fun i : Nat => (i : Int) + 1))
      ∧ ∀ visited ∈ actions.scanl CacheSystem.step system,
          ∀ cache, visited.server.replicationCache.lookup topic = some cache
          → cache ∈ past ++ stored topic system actions := by
  induction actions generalizing past system with
  | nil =>
      rw [stored, append_nil]
      refine ⟨h.numbers, fun visited member cache found => ?_⟩
      rw [scanl_nil, mem_singleton] at member
      exact h.cached cache (member ▸ found)
  | cons action rest ih =>
      rw [stored, ← append_assoc] at room ⊢
      have fits : (past ++ (system.stored? topic action).toList).length < 2 ^ 63 := by
        rw [length_append] at room
        omega
      obtain ⟨numbers, shown⟩ := ih (h.step fits) room
      refine ⟨numbers, fun visited member cache found => ?_⟩
      rw [scanl_cons, mem_cons] at member
      rcases member with rfl | later
      · exact mem_append_left _ (mem_append_left _ (h.cached cache found))
      · exact shown visited later cache found

end CacheSystem

/-! Queries that agree. -/

/-- With its replicas a query neither chooses nor replaces any more. -/
theorem LeaderQuery.ended_quiet (query : LeaderQuery) (refs : List BrokerRef)
    : (query.ended refs).selecting = false ∧ (query.ended refs).replacing = false := by
  cases refs with
  | nil | cons => exact ⟨rfl, rfl⟩

/-- Without brokers to report the same holds as soon as a query has its first replicas. -/
theorem LeaderQuery.selected_quiet (refs : List BrokerRef)
    : (query.selected refs).selecting = false
      ∧ ((query.selected refs).replacing = true → query.unreachable ≠ []) := by
  rw [selected]
  split
  · next reachable =>
      obtain ⟨notSelecting, notReplacing⟩ := query.ended_quiet refs
      refine ⟨notSelecting, fun replacing => ?_⟩
      rw [notReplacing] at replacing
      cases replacing
  · next reports => exact ⟨rfl, fun _ => reports⟩

namespace SentinelServer

variable {server : SentinelServer} {topic : GoString} {choice : Nat} {call : CacheCall}

theorem holdsTopic_queryRegion (holds : (server.queryRegion query phase).2.holdsTopic = true)
    : phase.holdsTopic = true ∨ phase = .lock := by
  cases phase with
  | lock => exact Or.inr rfl
  | failed | answered => cases holds
  | _ => exact Or.inl rfl

/-- A query begins to choose brokers when it finds no cache that fits. -/
theorem selecting_queryRegion (selecting : (server.queryRegion query phase).2.selecting = true)
    : phase.selecting = true ∨ (phase = .readCache ∧ query.cached? server = none) := by
  cases phase with
  | readCache =>
      refine Or.inr ⟨rfl, ?_⟩
      cases cached : query.cached? server with
      | none => rfl
      | some refs =>
          simp only [queryRegion, cached] at selecting
          rw [(LeaderQuery.selected_quiet refs).1] at selecting
          cases selecting
  | iterate | next _ | lookup _ _ | check _ _ | store _ => exact Or.inl rfl
  | storeAgain refs =>
      simp only [queryRegion] at selecting
      rw [(query.ended_quiet refs).1] at selecting
      cases selecting
  | marking current brokerIDs =>
      cases brokerIDs with
      | cons brokerID rest => cases selecting
      | nil =>
          simp only [queryRegion] at selecting
          split at selecting
          · cases selecting
          · rw [(query.ended_quiet _).1] at selecting
            cases selecting
  | replaceNext _ | replaceLookup _ _ | replaceCheck _ _ =>
      simp only [queryRegion] at selecting
      repeat' split at selecting
      all_goals cases selecting
  | _ => cases selecting

/-- A query begins to replace brokers when it reports any. -/
theorem replacing_queryRegion (replacing : (server.queryRegion query phase).2.replacing = true)
    : phase.replacing = true ∨ query.unreachable ≠ [] := by
  cases phase with
  | readCache =>
      simp only [queryRegion] at replacing
      split at replacing
      · exact Or.inr ((LeaderQuery.selected_quiet _).2 replacing)
      · cases replacing
  | store chosen => exact Or.inr ((LeaderQuery.selected_quiet _).2 replacing)
  | mark _ | marking _ _ | reiterate _ | replaceNext _ | replaceLookup _ _ | replaceCheck _ _
  | storeAgain _ => exact Or.inl rfl
  | next _ | lookup _ _ | check _ _ =>
      simp only [queryRegion] at replacing
      repeat' split at replacing
      all_goals cases replacing
  | _ => cases replacing

theorem cacheRegion_query (goesOn : (server.cacheRegion choice call).2 = .query query phase)
    : ∃ before, call = .query query before ∧ phase = (server.queryRegion query before).2 := by
  cases call with
  | query asked before =>
      obtain ⟨rfl, rfl⟩ := CacheCall.query.inj goesOn
      exact ⟨before, rfl, rfl⟩
  | registering topics => cases topics <;> cases goesOn
  | unregistering brokerID topics => cases topics <;> cases goesOn
  | registerBroker _ _ _ _ | keepAlive _ _ _ | unregisterBroker _ =>
      simp only [cacheRegion] at goesOn
      split at goesOn
      all_goals cases goesOn
  | checking now refs topics | expiring topics =>
      simp only [cacheRegion] at goesOn
      repeat' split at goesOn
      all_goals cases goesOn
  | _ => cases goesOn

theorem holdsTopic_cacheRegion
    (holds : (server.cacheRegion choice call).2.holdsTopic topic = true)
    : call.holdsTopic topic = true ∨ call.locksTopic = some topic := by
  cases goesOn : (server.cacheRegion choice call).2 with
  | query query phase =>
      obtain ⟨before, rfl, rfl⟩ := cacheRegion_query goesOn
      rw [goesOn, CacheCall.holdsTopic, Bool.and_eq_true, decide_eq_true_eq] at holds
      rcases holdsTopic_queryRegion holds.2 with held | rfl
      · refine Or.inl ?_
        rw [CacheCall.holdsTopic, held, Bool.and_true, decide_eq_true holds.1]
      · exact Or.inr (congrArg some holds.1)
  | _ =>
      rw [goesOn] at holds
      cases holds

theorem reporting_cacheRegion (reporting : call.reporting = true)
    : (server.cacheRegion choice call).2.reporting = true := by
  cases goesOn : (server.cacheRegion choice call).2 with
  | query query phase =>
      obtain ⟨before, rfl, rfl⟩ := cacheRegion_query goesOn
      rw [CacheCall.reporting, Bool.or_eq_true, Bool.not_eq_true'] at reporting ⊢
      cases replaces : (server.queryRegion query before).2.replacing with
      | false => exact Or.inl rfl
      | true =>
          rcases replacing_queryRegion replaces with already | reports
          · exact Or.inr (reporting.resolve_left (by simp [already]))
          · exact Or.inr (decide_eq_true reports)
  | _ => rfl

end SentinelServer

namespace CacheSystem

variable {topic : GoString} {replicaCount : Nat} {system : CacheSystem} {action : CacheAction}

/-- At most one query holds the lock of the topic, and only those that report brokers replace
any.
-/
structure Serial (topic : GoString) (system : CacheSystem) : Prop where
  exclusive : Pool.Exclusive (CacheCall.holdsTopic topic) system.calls
  reporting : ∀ call ∈ system.calls, call.reporting = true

theorem Serial.new (topic : GoString) : Serial topic .new where
  exclusive := Nat.zero_le 1
  reporting := fun call member => by cases member

theorem Serial.step (h : Serial topic system) (action : CacheAction)
    : Serial topic (system.step action) := by
  cases action with
  | start request =>
      refine ⟨h.exclusive.start ?_,
        forall_mem_append.mpr ⟨h.reporting, forall_mem_singleton.mpr ?_⟩⟩
      · cases request <;> simp [CacheRequest.call, CacheCall.holdsTopic, QueryPhase.holdsTopic]
      · cases request <;> rfl
  | advance i choice =>
      rcases system.advance_cases i choice with ⟨_, same⟩ | ⟨call, found, runs, _, stepped⟩
      · rwa [same]
      rw [stepped]
      refine { exclusive := h.exclusive.set found (fun holds => ?_), reporting := ?_ }
      · rcases SentinelServer.holdsTopic_cacheRegion holds with held | locks
        · exact Or.inl held
        · rw [canRun, locks, Option.all_some, Bool.and_eq_true] at runs
          exact Or.inr (by simpa using runs.2)
      · intro other member
        rcases Pool.mem_set found member with rfl | old
        · exact SentinelServer.reporting_cacheRegion
            (h.reporting call (mem_of_getElem? found))
        · exact h.reporting other old

/-- There is a cache that fits, and no query chooses brokers for another one. -/
structure Settled (topic : GoString) (replicaCount : Nat) (system : CacheSystem) : Prop where
  cached
    : ∃ cache,
        system.server.replicationCache.lookup topic = some cache
        ∧ cache.replicaCount = replicaCount
  quiet : ∀ call ∈ system.calls, call.selects topic = false

/-- A query that agrees stores the brokers it has chosen, and is done with choosing. -/
theorem Serial.store_of_alike (h : Serial topic system) (member : call ∈ system.calls)
    (alike : call.alike topic replicaCount = true) (stores : call.stores topic = true)
    : ∃ query chosen,
        call = .query query (.store chosen)
        ∧ query.topic = topic
        ∧ query.replicaCount = replicaCount
        ∧ query.unreachable = [] := by
  have reporting := h.reporting call member
  cases call with
  | query query phase =>
      cases phase with
      | store chosen =>
          have named := of_decide_eq_true stores
          exact ⟨query, chosen, rfl, named, CacheCall.agree_of_alike alike rfl named⟩
      | storeAgain refs =>
          have reachable := (CacheCall.agree_of_alike alike rfl (of_decide_eq_true stores)).2
          exact absurd reachable (of_decide_eq_true reporting)
      | _ => cases stores
  | _ => cases stores

/-- A query that agrees finds the cache that fits. -/
theorem Settled.selects_cacheRegion (h : Settled topic replicaCount system)
    (member : call ∈ system.calls) (alike : call.alike topic replicaCount = true) (choice : Nat)
    : (system.server.cacheRegion choice call).2.selects topic = false := by
  cases goesOn : (system.server.cacheRegion choice call).2 with
  | query query phase =>
      obtain ⟨before, rfl, rfl⟩ := SentinelServer.cacheRegion_query goesOn
      rw [CacheCall.selects, Bool.and_eq_false_iff, decide_eq_false_iff_not]
      by_cases named : query.topic = topic
      · refine Or.inr (Bool.eq_false_iff.mpr (fun selecting => ?_))
        rcases SentinelServer.selecting_queryRegion selecting with already | ⟨rfl, uncached⟩
        · have quiet := h.quiet _ member
          simp [CacheCall.selects, named, already] at quiet
        · obtain ⟨cache, found, fits⟩ := h.cached
          rw [LeaderQuery.cached?, named, found] at uncached
          simp only [fits, (CacheCall.agree_of_alike alike rfl named).1, if_true] at uncached
          cases uncached
      · exact Or.inl named
  | _ => rfl

/-- From then on nothing is stored. -/
theorem Settled.step (h : Settled topic replicaCount system) (serial : Serial topic system)
    (agrees : system.Agrees topic replicaCount action)
    : system.stored? topic action = none ∧ Settled topic replicaCount (system.step action) := by
  cases action with
  | start request =>
      refine ⟨stored?_of_idle rfl, h.cached,
        forall_mem_append.mpr ⟨h.quiet, forall_mem_singleton.mpr ?_⟩⟩
      cases request <;> simp [CacheRequest.call, CacheCall.selects, QueryPhase.selecting]
  | advance i choice =>
      rcases system.advance_cases i choice with ⟨idle, same⟩ | ⟨call, found, runs, running, stepped⟩
      · exact ⟨stored?_of_idle idle, same.symm ▸ h⟩
      have member := mem_of_getElem? found
      have alike := agrees.1 call member
      have quiet (other : CacheCall) (after : other ∈ (system.step (.advance i choice)).calls)
          : other.selects topic = false := by
        rw [stepped] at after
        rcases Pool.mem_set found after with rfl | old
        · exact h.selects_cacheRegion member alike choice
        · exact h.quiet other old
      cases system.server.cacheRegion_topicEffect topic choice call with
      | keep stores version cache =>
          refine ⟨stored?_of_quiet running stores, { cached := ?_, quiet := quiet }⟩
          rw [stepped, cache]
          exact h.cached
      | invalidate stores names version gone =>
          refine absurd ?_ agrees.2
          rw [invalidates, running, Option.bind_some, names]
      | store stores refs count same =>
          obtain ⟨query, chosen, rfl, named, _⟩ := serial.store_of_alike member alike stores
          have choosing := h.quiet _ member
          simp [CacheCall.selects, named, QueryPhase.selecting] at choosing

/-- A query holds the lock of its topic while it chooses. -/
theorem holdsTopic_of_selects (selects : call.selects topic = true)
    : call.holdsTopic topic = true := by
  cases call with
  | query query phase =>
      rw [CacheCall.selects, Bool.and_eq_true] at selects
      rw [CacheCall.holdsTopic, selects.1, Bool.true_and]
      cases phase with
      | iterate | next _ | lookup _ _ | check _ _ | store _ => rfl
      | _ => cases selects.2
  | _ => cases selects

/-- What is stored settles the topic: whoever else chooses would need its lock. -/
theorem Serial.settled_of_stored? (serial : Serial topic system)
    (agrees : system.Agrees topic replicaCount action) {cache : ReplicationCache}
    (stores : system.stored? topic action = some cache)
    : Settled topic replicaCount (system.step action) := by
  cases action with
  | start request => cases stores
  | advance i choice =>
      rcases system.advance_cases i choice with ⟨idle, _⟩ | ⟨call, found, runs, running, stepped⟩
      · rw [stored?_of_idle idle] at stores
        cases stores
      have member := mem_of_getElem? found
      have storing : call.stores topic = true := by
        by_contra quiet
        rw [stored?_of_quiet running (Bool.eq_false_iff.mpr quiet)] at stores
        cases stores
      obtain ⟨query, chosen, rfl, rfl, rfl, reachable⟩ :=
        serial.store_of_alike member (agrees.1 call member) storing
      rw [stepped]
      refine { cached := ⟨_, AList.lookup_insert _, rfl⟩, quiet := fun other after => ?_ }
      have held : (CacheCall.query query (.store chosen)).holdsTopic query.topic = true := by
        simp [CacheCall.holdsTopic, QueryPhase.holdsTopic, QueryPhase.inProgress]
      rcases serial.exclusive.others found held after with rfl | free
      · simp [SentinelServer.cacheRegion, SentinelServer.queryRegion, CacheCall.selects,
          (LeaderQuery.selected_quiet chosen).1]
      · refine Bool.eq_false_iff.mpr (fun selects => ?_)
        rw [holdsTopic_of_selects selects] at free
        cases free

/-- By induction on the steps, until one of them stores a cache. -/
theorem Settled.stored_eq_nil (h : Settled topic replicaCount system) (serial : Serial topic system)
    (agree : AllSteps CacheSystem.step (Agrees topic replicaCount) system actions)
    : stored topic system actions = [] := by
  induction actions generalizing system with
  | nil => rfl
  | cons action rest ih =>
      obtain ⟨nothing, settled⟩ := h.step serial agree.1
      rw [stored, nothing, ih settled (serial.step action) agree.2]
      rfl

theorem Serial.length_stored_le (serial : Serial topic system)
    (agree : AllSteps CacheSystem.step (Agrees topic replicaCount) system actions)
    : (stored topic system actions).length ≤ 1 := by
  induction actions generalizing system with
  | nil => exact Nat.zero_le 1
  | cons action rest ih =>
      rw [stored]
      cases stores : system.stored? topic action with
      | none => exact ih (serial.step action) agree.2
      | some cache =>
          have settled := serial.settled_of_stored? agree.1 stores
          rw [settled.stored_eq_nil (serial.step action) agree.2]
          exact Nat.le_refl 1

/-- Over every interleaving of calls the versions of a topic's caches increase, a version says what
is cached, and queries that agree store one cache at most between two invalidations.
-/
theorem cache_versions_identify (topic : GoString) (actions : List CacheAction)
    (room : (stored topic .new actions).length < 2 ^ 63)
    : ((stored topic .new actions).map ReplicationCache.version).Pairwise (· < ·)
      ∧ (∀ first ∈ actions.scanl step .new,
          ∀ second ∈ actions.scanl step .new,
            ∀ cache other,
              first.server.replicationCache.lookup topic = some cache
              → second.server.replicationCache.lookup topic = some other
              → cache.version = other.version
              → cache.replicaCount = other.replicaCount ∧ cache.brokers = other.brokers)
      ∧ ∀ before requests,
          actions = before ++ requests
          → ∀ replicaCount,
              AllSteps step (Agrees topic replicaCount) (before.foldl step .new) requests
              → (stored topic (before.foldl step .new) requests).length ≤ 1 := by
  obtain ⟨numbers, shown⟩ := (Versions.new topic).run (by simpa using room)
  rw [nil_append] at numbers shown
  have increasing
      : ((stored topic .new actions).map (fun cache => cache.version.toInt)).Pairwise (· < ·) := by
    rw [numbers, pairwise_map]
    exact pairwise_lt_range.imp (fun less => by omega)
  refine ⟨?_, ?_, ?_⟩
  · rw [pairwise_map] at increasing ⊢
    exact increasing.imp Int64.lt_iff_toInt_lt.mpr
  · intro first inFirst second inSecond cache other found foundOther same
    have unique := increasing.imp (fun less => Int.ne_of_lt less)
    have equal := inj_on_of_nodup_map unique (shown first inFirst cache found)
      (shown second inSecond other foundOther) (congrArg Int64.toInt same)
    exact ⟨congrArg _ equal, congrArg _ equal⟩
  · rintro before requests rfl replicaCount agree
    have serial : Serial topic (before.foldl step .new) :=
      (AllSteps.of_forall (fun _ _ => trivial) _ before).invariant
        (fun system action _ h => h.step action) (Serial.new topic)
    exact serial.length_stored_le agree

def moves (call count : Nat) : List CacheAction := List.replicate count (.advance call 0)

/-- A query caches replicas; a second one asks for more, and before it stores them a broker that
declares the topic registers.
-/
def registersBetween : List CacheAction :=
  .start (.getTopicLeader (lit "t") 1 []) :: .start (.getTopicLeader (lit "t") 2 [])
    :: moves 0 5 ++ moves 1 4
    ++ .start (.registerBroker 0 (lit "a") (lit "a:1") [lit "t"]) :: moves 2 3 ++ moves 1 2

theorem cache_versions_identify_registersBetween
    : (stored (lit "t") .new registersBetween).map ReplicationCache.version = [1, 2]
      ∧ ((stored (lit "t") .new registersBetween).map ReplicationCache.version).Pairwise
          (· < ·) :=
  ⟨by decide +kernel,
    (cache_versions_identify (lit "t") registersBetween (by decide +kernel)).1⟩

end CacheSystem

end Goulette.Sentinel
