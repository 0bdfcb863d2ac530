import Mathlib.Logic.Relation
import Goulette.Sentinel.Membership

/-! The calls of a sentinel without etcd on its replica cache, as sequences of regions under locks.
A call that nobody interrupts does what the function of the server does.
-/

namespace Goulette.Sentinel

open Goulette.Go Goulette.Storage OwnedSlots List

structure LeaderQuery where
  topic : GoString
  replicaCount : Nat
  unreachable : List GoString

/-- The selection loop of a query: the rounds left, and the brokers chosen so far. -/
structure Selection where
  rounds : Nat
  iter : NodeIterator
  chosen : List BrokerRef

/-- The replacement loop of a query: the brokers it has, those it still needs and those it found. -/
structure Replacement where
  available : List BrokerRef
  needed : Nat
  iter : NodeIterator
  found : List BrokerRef

def Replacement.refs (loop : Replacement) : List BrokerRef := loop.available ++ loop.found

/-- What a query does next, or how it ended. With its replicas confirmed it asks for the leader and
tells the brokers their roles.
-/
inductive QueryPhase
  | lock
  | readCache
  | iterate
  | next (loop : Selection)
  | lookup (loop : Selection) (brokerID : GoString)
  | check (loop : Selection) (ref : BrokerRef)
  | store (chosen : List BrokerRef)
  | mark (current : List BrokerRef)
  | marking (current : List BrokerRef) (brokerIDs : List GoString)
  | reiterate (available : List BrokerRef)
  | replaceNext (loop : Replacement)
  | replaceLookup (loop : Replacement) (brokerID : GoString)
  | replaceCheck (loop : Replacement) (ref : BrokerRef)
  | storeAgain (refs : List BrokerRef)
  | confirm (refs : List BrokerRef)
  | failed (failure : GoError)
  | answered

inductive CacheCall
  | registerBroker (now : Int) (brokerID address : GoString) (topics : List GoString)
  | registering (topics : List GoString)
  | keepAlive (now : Int) (brokerID address : GoString)
  | keepingAlive (now : Int) (ref : BrokerRef) (address : GoString)
  | unregisterBroker (brokerID : GoString)
  | unregistering (brokerID : GoString) (topics : List GoString)
  | checkBrokers (now : Int)
  | checking (now : Int) (refs : List BrokerRef) (topics : List GoString)
  | expiring (topics : List GoString)
  | query (query : LeaderQuery) (phase : QueryPhase)
  | acknowledged (ack : SentinelServer.Ack)
  | checked

namespace QueryPhase

/-- The brokers that a query may still store. -/
def refs : QueryPhase → List BrokerRef
  | .next loop | .lookup loop _ => loop.chosen
  | .check loop ref => ref :: loop.chosen
  | .store refs | .mark refs | .marking refs _ | .reiterate refs | .storeAgain refs => refs
  | .replaceNext loop | .replaceLookup loop _ => loop.refs
  | .replaceCheck loop ref => ref :: loop.refs
  | .lock | .readCache | .iterate | .confirm _ | .failed _ | .answered => []

def inProgress : QueryPhase → Bool
  | .failed _ | .answered => false
  | _ => true

def holdsTopic : QueryPhase → Bool
  | .lock => false
  | phase => phase.inProgress

def locks : QueryPhase → Bool
  | .iterate | .lookup _ _ | .mark _ | .reiterate _ | .replaceLookup _ _ => true
  | _ => false

end QueryPhase

namespace CacheCall

def refs : CacheCall → List BrokerRef
  | .query _ phase => phase.refs
  | _ => []

def querying : CacheCall → Bool
  | .query _ phase => phase.inProgress
  | _ => false

def locks : CacheCall → Bool
  | .registerBroker .. | .keepAlive .. | .unregisterBroker _ => true
  | .query _ phase => phase.locks
  | _ => false

def holds : CacheCall → Bool
  | .registering _ | .keepingAlive .. | .unregistering .. => true
  | .query _ (.marking ..) => true
  | _ => false

def leaving? : CacheCall → Option GoString
  | .unregistering brokerID _ => some brokerID
  | _ => none

def locksTopic : CacheCall → Option GoString
  | .query asked .lock => some asked.topic
  | _ => none

def holdsTopic (topic : GoString) : CacheCall → Bool
  | .query asked phase => asked.topic = topic && phase.holdsTopic
  | _ => false

end CacheCall

namespace LeaderQuery

def cached? (query : LeaderQuery) (server : SentinelServer) : Option (List BrokerRef) :=
  match server.replicationCache.lookup query.topic with
  | some cache => if cache.replicaCount = query.replicaCount then some cache.brokers else none
  | none => none

/-- With its replicas a query fails without any, and otherwise goes on to the brokers. -/
def ended (query : LeaderQuery) (refs : List BrokerRef) : QueryPhase :=
  match refs with
  | [] => .failed (noBroker query.topic)
  | refs => .confirm refs

def selected (query : LeaderQuery) (refs : List BrokerRef) : QueryPhase :=
  if query.unreachable = [] then query.ended refs else .mark refs

/-- How a query goes on when the brokers it reports are replaced. -/
def outcome (query : LeaderQuery) : Except GoError (List BrokerRef) → QueryPhase
  | .error failure => .failed failure
  | .ok refs => query.ended refs

def tooFew (needed found : Nat) : GoError :=
  lit "寻找替换broker失败: "
    ++ (lit "无法找到足够的健康broker来补充副本，需要 " ++ decimal needed
      ++ lit " 个，只找到 " ++ decimal found ++ lit " 个")

end LeaderQuery

namespace SentinelServer

def queryRegion (server : SentinelServer) (query : LeaderQuery)
    : QueryPhase → SentinelServer × QueryPhase
  | .lock => (server, .readCache)
  | .readCache =>
      match query.cached? server with
      | some refs => (server, query.selected refs)
      | none => (server, .iterate)
  | .iterate =>
      (server,
        .next {
          rounds := query.replicaCount
          iter := server.hashRing.getNodeIter query.topic
          chosen := []
        })
  | .next loop =>
      match loop.rounds with
      | 0 => (server, .store loop.chosen)
      | rounds + 1 =>
          let result := loop.iter.next server.hashRing
          if result.1.1 = [] ∨ result.1.2.isSome then (server, .store loop.chosen)
          else (server, .lookup { loop with rounds, iter := result.2 } result.1.1)
  | .lookup loop brokerID =>
      match server.brokers.lookup brokerID with
      | none => (server, .next loop)
      | some ref => (server, .check loop ref)
  | .check loop ref =>
      if (server.record ref).status = .healthy then
        (server, .next { loop with chosen := loop.chosen ++ [ref] })
      else (server, .next loop)
  | .store chosen =>
      (World.storeCache server query.topic chosen query.replicaCount, query.selected chosen)
  | .mark current => (server, .marking current query.unreachable)
  | .marking current (brokerID :: rest) =>
      (server.updateBrokerStatus [brokerID] .down, .marking current rest)
  | .marking current [] =>
      let available := current.filter
        (fun ref => (server.record ref).brokerID ∉ query.unreachable)
      if available.length < query.replicaCount then (server, .reiterate available)
      else (server, query.ended available)
  | .reiterate available =>
      (server,
        .replaceNext {
          available
          needed := query.replicaCount - available.length
          iter := server.hashRing.getNodeIter query.topic
          found := []
        })
  | .replaceNext loop =>
      if loop.needed = 0 then (server, .storeAgain loop.refs)
      else
        let result := loop.iter.next server.hashRing
        if result.1.1 = [] ∨ result.1.2.isSome then
          (server,
            .failed (LeaderQuery.tooFew (loop.found.length + loop.needed) loop.found.length))
        else if result.1.1 ∈ loop.available.map (fun ref => (server.record ref).brokerID) then
          (server, .replaceNext { loop with iter := result.2 })
        else (server, .replaceLookup { loop with iter := result.2 } result.1.1)
  | .replaceLookup loop brokerID =>
      match server.brokers.lookup brokerID with
      | none => (server, .replaceNext loop)
      | some ref => (server, .replaceCheck loop ref)
  | .replaceCheck loop ref =>
      if (server.record ref).status = .healthy then
        (server,
          .replaceNext { loop with needed := loop.needed - 1, found := loop.found ++ [ref] })
      else (server, .replaceNext loop)
  | .storeAgain refs =>
      (World.storeCache server query.topic refs query.replicaCount, query.ended refs)
  | .confirm _ => (server, .answered)
  | .failed failure => (server, .failed failure)
  | .answered => (server, .answered)

/-- The next region of a call. -/
def cacheRegion (server : SentinelServer) (choice : Nat)
    : CacheCall → SentinelServer × CacheCall
  | .registerBroker now brokerID address topics =>
      if (server.brokers.lookup brokerID).isSome then
        (server, .acknowledged { success := false, errorMessage := lit "Broker已存在" })
      else
        (server.addBroker
            { brokerID, address, status := .healthy, topics, lastHeartbeat := now },
          .registering topics)
  | .registering (topic :: rest) => (server.invalidateCache topic, .registering rest)
  | .registering [] => (server, .acknowledged { success := true, errorMessage := [] })
  | .keepAlive now brokerID address =>
      match server.brokers.lookup brokerID with
      | none =>
          (server.addBroker
              { brokerID, address, status := .healthy, topics := [], lastHeartbeat := now },
            .acknowledged { success := true, errorMessage := lit "心跳更新成功" })
      | some ref => (server, .keepingAlive now ref address)
  | .keepingAlive now ref address =>
      (server.modifyRecord ref
          (fun info => { info with address, status := .healthy, lastHeartbeat := now }),
        .acknowledged { success := true, errorMessage := lit "心跳更新成功" })
  | .unregisterBroker brokerID =>
      match server.brokers.lookup brokerID with
      | none =>
          (server, .acknowledged { success := false, errorMessage := lit "Broker不存在" })
      | some ref =>
          ({ server with hashRing := server.hashRing.removeNode brokerID },
            .unregistering brokerID (server.record ref).topics)
  | .unregistering brokerID (topic :: rest) =>
      (server.invalidateCache topic, .unregistering brokerID rest)
  | .unregistering brokerID [] =>
      ({ server with brokers := server.brokers.erase brokerID },
        .acknowledged { success := true, errorMessage := [] })
  | .checkBrokers now =>
      (server, .checking now (server.brokers.entries.map Sigma.snd) [])
  -- brokers and topics come in any order; the choice says which of them is next
  | .checking now refs topics =>
      match refs[choice]? with
      | some ref =>
          let info := server.record ref
          (server.modifyRecord ref (fun info => { info with status := checkStatus now info }),
            .checking now (refs.eraseIdx choice)
              (if checkStatus now info ≠ info.status then info.topics ∪ topics else topics))
      | none => (server, if refs = [] then .expiring topics else .checking now refs topics)
  | .expiring topics =>
      match topics[choice]? with
      | some topic => (server.invalidateCache topic, .expiring (topics.eraseIdx choice))
      | none => (server, if topics = [] then .checked else .expiring topics)
  | .query query phase =>
      let result := server.queryRegion query phase
      (result.1, .query query result.2)
  | .acknowledged ack => (server, .acknowledged ack)
  | .checked => (server, .checked)

end SentinelServer

/-! Queries by themselves. -/

namespace Replacement

def take (loop : Replacement) : Option BrokerRef → Replacement
  | none => loop
  | some ref => { loop with needed := loop.needed - 1, found := loop.found ++ [ref] }

def ended (loop : Replacement) (more : List BrokerRef) : QueryPhase :=
  if more.length < loop.needed then
    .failed (LeaderQuery.tooFew (loop.found.length + loop.needed)
      (loop.found.length + more.length))
  else .storeAgain (loop.refs ++ more)

/-- The first broker found counts as one that was found before. -/
theorem ended_take (loop : Replacement) (ref : BrokerRef) (rest : List BrokerRef)
    (needed : loop.needed ≠ 0)
    : (loop.take (some ref)).ended rest = loop.ended (ref :: rest) := by
  have length : (loop.found ++ [ref]).length = loop.found.length + 1 := length_append
  have wanted : loop.found.length + 1 + (loop.needed - 1) = loop.found.length + loop.needed := by
    omega
  have got : loop.found.length + 1 + rest.length = loop.found.length + (rest.length + 1) := by
    omega
  have fewer : rest.length < loop.needed - 1 ↔ rest.length + 1 < loop.needed := by omega
  simp only [ended, take, length, length_cons, wanted, got, fewer, refs, append_assoc,
    singleton_append]

end Replacement

namespace SentinelServer

/-- Regions of a query that nobody interrupts. -/
abbrev QueryAlone (query : LeaderQuery)
    : SentinelServer × QueryPhase → SentinelServer × QueryPhase → Prop :=
  Relation.ReflTransGen (fun before after => before.1.queryRegion query before.2 = after)

section QueryAlone

variable (server : SentinelServer) (query : LeaderQuery)

/-- A broker that is looked up joins the chosen ones if it is registered and healthy. -/
theorem queryAlone_lookup (loop : Selection) (brokerID : GoString)
    : QueryAlone query (server, .lookup loop brokerID)
        (server,
          .next { loop with chosen := loop.chosen ++ (server.healthyBroker brokerID).toList }) := by
  unfold healthyBroker
  cases found : server.brokers.lookup brokerID with
  | none =>
      refine .single ?_
      simp only [queryRegion, found, Option.toList_none, append_nil]
  | some ref =>
      have looked
          : server.queryRegion query (.lookup loop brokerID) = (server, .check loop ref) := by
        simp only [queryRegion, found]
      refine .head looked (.single ?_)
      by_cases healthy : (server.record ref).status = .healthy
      · simp only [queryRegion, if_pos healthy, Option.toList_some]
      · simp only [queryRegion, if_neg healthy, Option.toList_none, append_nil]

/-- The selection loop by itself, by induction on the rounds that are left. -/
theorem queryAlone_select (loop : Selection)
    : QueryAlone query (server, .next loop)
        (server, .store (loop.chosen ++ server.selectFrom loop.rounds loop.iter)) := by
  obtain ⟨rounds, iter, chosen⟩ := loop
  induction rounds generalizing iter chosen with
  | zero =>
      simp only [selectFrom, append_nil]
      exact .single rfl
  | succ rounds ih =>
      simp only [selectFrom]
      by_cases ended
          : (iter.next server.hashRing).1.1 = [] ∨ (iter.next server.hashRing).1.2.isSome
      · rw [if_pos ended, append_nil]
        exact .single (if_pos ended)
      · rw [if_neg ended]
        refine .head (if_neg ended) (.trans (server.queryAlone_lookup query _ _) ?_)
        have rest := ih (iter.next server.hashRing).2
          (chosen ++ (server.healthyBroker (iter.next server.hashRing).1.1).toList)
        cases healthy : server.healthyBroker (iter.next server.hashRing).1.1 with
        | none => simpa only [healthy, Option.toList_none, append_nil] using rest
        | some ref =>
            simpa only [healthy, Option.toList_some, append_assoc, singleton_append]
              using rest

theorem queryAlone_replaceLookup (loop : Replacement) (brokerID : GoString)
    : QueryAlone query (server, .replaceLookup loop brokerID)
        (server, .replaceNext (loop.take (server.healthyBroker brokerID))) := by
  unfold healthyBroker
  cases known : server.brokers.lookup brokerID with
  | none =>
      refine .single ?_
      simp only [queryRegion, known, Replacement.take]
  | some ref =>
      have looked
          : server.queryRegion query (.replaceLookup loop brokerID)
            = (server, .replaceCheck loop ref) := by
        simp only [queryRegion, known]
      refine .head looked (.single ?_)
      by_cases healthy : (server.record ref).status = .healthy
      · simp only [queryRegion, if_pos healthy, Replacement.take]
      · simp only [queryRegion, if_neg healthy, Replacement.take]

/-- A node that is not among the present brokers is looked up. -/
theorem queryRegion_replaceNext (loop : Replacement) (wanted : loop.needed ≠ 0)
    (goesOn
      : ¬((loop.iter.next server.hashRing).1.1 = []
        ∨ (loop.iter.next server.hashRing).1.2.isSome))
    (absent
      : (loop.iter.next server.hashRing).1.1
        ∉ loop.available.map (fun ref => (server.record ref).brokerID))
    : server.queryRegion query (.replaceNext loop)
      = (server,
          .replaceLookup { loop with iter := (loop.iter.next server.hashRing).2 }
            (loop.iter.next server.hashRing).1.1) := by
  simp only [queryRegion, if_neg wanted, if_neg goesOn, if_neg absent]

/-- The replacement loop by itself, by induction along the loop. -/
theorem queryAlone_replace (loop : Replacement)
    : QueryAlone query (server, .replaceNext loop)
        (server,
          loop.ended
            (server.replaceFrom (loop.available.map (fun ref => (server.record ref).brokerID))
              loop.needed loop.iter)) := by
  obtain ⟨available, needed, iter, before⟩ := loop
  simp only
  generalize names : available.map (fun ref => (server.record ref).brokerID) = current
  fun_induction server.replaceFrom current needed iter generalizing before with
  | case1 iter =>
      refine .single ?_
      simp [queryRegion, Replacement.ended, Replacement.refs]
  | case2 needed iter wanted ended =>
      refine .single ?_
      simp only [queryRegion, if_neg wanted, if_pos ended, Replacement.ended, length_nil,
        if_pos (Nat.pos_of_ne_zero wanted), Nat.add_zero]
  | case3 needed iter wanted ended present ih =>
      refine .head ?_ (ih before)
      simp only [queryRegion, if_neg wanted, if_neg ended, names, if_pos present]
  | case4 needed iter wanted ended absent unhealthy ih =>
      have asked := server.queryRegion_replaceNext query ⟨available, needed, iter, before⟩ wanted
        ended (names ▸ absent)
      refine .head asked (.trans (server.queryAlone_replaceLookup query _ _) ?_)
      rw [unhealthy]
      exact ih before
  | case5 needed iter wanted ended absent ref healthy ih =>
      have asked := server.queryRegion_replaceNext query ⟨available, needed, iter, before⟩ wanted
        ended (names ▸ absent)
      refine .head asked (.trans (server.queryAlone_replaceLookup query _ _) ?_)
      rw [healthy]
      have counted := Replacement.ended_take ⟨available, needed, iter, before⟩ ref
        (server.replaceFrom current (needed - 1) (iter.next server.hashRing).2) wanted
      exact counted ▸ ih (before ++ [ref])

theorem queryAlone_marking (current : List BrokerRef) (brokerIDs : List GoString)
    : QueryAlone query (server, .marking current brokerIDs)
        (server.updateBrokerStatus brokerIDs .down, .marking current []) := by
  induction brokerIDs generalizing server with
  | nil => exact .refl
  | cons brokerID rest ih => exact .head rfl (ih (server.updateBrokerStatus [brokerID] .down))

/-- Up to its first replicas a query does what the cache lookup does. -/
theorem queryAlone_cached
    : QueryAlone query (server, .lock)
        ((World.cachedBrokers server query.topic query.replicaCount).1,
          query.selected (World.cachedBrokers server query.topic query.replicaCount).2) := by
  refine .head (b := (server, .readCache)) rfl ?_
  have chosen
      : QueryAlone query (server, .iterate)
          (World.storeCache server query.topic
              (server.selectBrokers query.topic query.replicaCount) query.replicaCount,
            query.selected (server.selectBrokers query.topic query.replicaCount)) :=
    .head rfl (.tail (server.queryAlone_select query _) rfl)
  cases known : server.replicationCache.lookup query.topic with
  | none =>
      refine .head (b := (server, .iterate)) ?_ ?_
      · simp only [queryRegion, LeaderQuery.cached?, known]
      · simpa only [World.cachedBrokers, known] using chosen
  | some cache =>
      by_cases enough : cache.replicaCount = query.replicaCount
      · refine .single ?_
        simp only [queryRegion, LeaderQuery.cached?, known, if_pos enough, World.cachedBrokers]
      · refine .head (b := (server, .iterate)) ?_ ?_
        · simp only [queryRegion, LeaderQuery.cached?, known, if_neg enough]
        · simpa only [World.cachedBrokers, known, if_neg enough] using chosen

/-- From its first replicas on a query does what the replacement of reported brokers does. -/
theorem queryAlone_unreachable (current : List BrokerRef)
    : QueryAlone query (server, query.selected current)
        ((World.replaceUnreachable server query.topic current query.replicaCount
            query.unreachable).1,
          query.outcome (World.replaceUnreachable server query.topic current query.replicaCount
            query.unreachable).2) := by
  unfold World.replaceUnreachable LeaderQuery.selected
  by_cases reachable : query.unreachable = []
  · rw [if_pos reachable, if_pos reachable]
    exact .refl
  rw [if_neg reachable, if_neg reachable]
  refine .head (b := (server, .marking current query.unreachable)) rfl
    (.trans (server.queryAlone_marking query current query.unreachable) ?_)
  generalize server.updateBrokerStatus query.unreachable .down = marked
  simp only
  generalize kept
      : current.filter (fun ref => (marked.record ref).brokerID ∉ query.unreachable) = available
  unfold World.refill
  by_cases few : available.length < query.replicaCount
  · have reiterated
        : marked.queryRegion query (.marking current []) = (marked, .reiterate available) := by
      simp only [queryRegion, kept, if_pos few]
    refine .head reiterated (.head rfl (.trans (marked.queryAlone_replace query _) ?_))
    simp only [if_pos few, findReplacementBrokers, Replacement.ended]
    by_cases missing
        : (marked.replaceFrom (available.map (fun ref => (marked.record ref).brokerID))
            (query.replicaCount - available.length)
            (marked.hashRing.getNodeIter query.topic)).length
          < query.replicaCount - available.length
    · simp only [if_pos missing, LeaderQuery.outcome, LeaderQuery.tooFew, length_nil,
        Nat.zero_add]
      exact .refl
    · simp only [if_neg missing, LeaderQuery.outcome, Replacement.refs, append_nil]
      exact .single rfl
  · refine .single ?_
    simp only [queryRegion, kept, if_neg few, LeaderQuery.outcome]

/-- A query that nobody interrupts does to the tables what `getTopicLeaderLegacy` does. -/
theorem queryAlone_legacy
    : ∃ server' result,
        QueryAlone query (server, .lock) (server', query.outcome result)
        ∧ ∀ network,
            (World.getTopicLeaderLegacy ⟨server, network⟩ query.topic query.replicaCount
              query.unreachable).state.sentinel = server' := by
  refine ⟨_, _, .trans (server.queryAlone_cached query) (queryAlone_unreachable _ query _), ?_⟩
  intro network
  unfold World.getTopicLeaderLegacy
  simp only
  split
  · rfl
  · rfl
  · exact World.confirmLeader_sentinel _ _ _ _

end QueryAlone

/-- Regions of a call that nobody interrupts, with any choices. -/
abbrev CacheAlone : SentinelServer × CacheCall → SentinelServer × CacheCall → Prop :=
  Relation.ReflTransGen (fun before after => ∃ choice, before.1.cacheRegion choice before.2 = after)

section CacheAlone

variable {server : SentinelServer} {now : Int} {topic : GoString}

/-- The servers differ at most in the order of their caches. -/
def SameTables (first second : SentinelServer) : Prop :=
  { first with replicationCache := ∅ } = { second with replicationCache := ∅ }
  ∧ ∀ topic, first.replicationCache.lookup topic = second.replicationCache.lookup topic

theorem sameTables_invalidate {first second : List GoString}
    (same : ∀ topic, topic ∈ first ↔ topic ∈ second) (server : SentinelServer)
    : SameTables (first.foldl invalidateCache server) (second.foldl invalidateCache server) := by
  rw [invalidateCaches_eq, invalidateCaches_eq]
  refine ⟨rfl, fun topic => ?_⟩
  by_cases gone : topic ∈ first
  · exact (lookup_foldl_erase_of_mem _ _ gone).trans
      (lookup_foldl_erase_of_mem _ _ ((same topic).mp gone)).symm
  · exact (lookup_foldl_erase _ _ gone).trans
      (lookup_foldl_erase _ _ (fun listed => gone ((same topic).mpr listed))).symm

def checkBroker (now : Int) (server : SentinelServer) (ref : BrokerRef) : SentinelServer :=
  server.modifyRecord ref (fun info => { info with status := checkStatus now info })

/-- Brokers are checked in any order. -/
instance (now : Int) : RightCommutative (checkBroker now) where
  right_comm := by
    intro server first second
    by_cases same : first = second
    · rw [same]
    have records
        : ((server.checkBroker now first).checkBroker now second).records
          = ((server.checkBroker now second).checkBroker now first).records := by
      apply ext_getElem?
      intro i
      simp only [checkBroker, modifyRecord, List.getElem?_modify]
      by_cases here : first = i
      · have apart : second ≠ i := fun other => same (here.trans other.symm)
        simp [here, apart]
      · simp [here]
    exact congrArg (fun records => { server with records }) records

def changedTopics (server : SentinelServer) (now : Int) (refs : List BrokerRef) : List GoString :=
  let changed := refs.filter
    (fun ref => checkStatus now (server.record ref) ≠ (server.record ref).status)
  changed.flatMap (fun ref => (server.record ref).topics)

theorem mem_changedTopics {refs : List BrokerRef}
    : topic ∈ server.changedTopics now refs
      ↔ ∃ ref ∈ refs,
          checkStatus now (server.record ref) ≠ (server.record ref).status
          ∧ topic ∈ (server.record ref).topics := by
  simp only [changedTopics, mem_flatMap, mem_filter, decide_eq_true_eq, and_assoc]

/-- The topics that lose their cache are the same, whichever broker is checked first. -/
theorem mem_changedTopics_check {ref : BrokerRef} {rest : List BrokerRef} (new : ref ∉ rest)
    (topics : List GoString)
    : (topic ∈ (if checkStatus now (server.record ref) ≠ (server.record ref).status
          then (server.record ref).topics ∪ topics else topics)
        ∨ topic ∈ (server.checkBroker now ref).changedTopics now rest)
      ↔ topic ∈ topics ∨ topic ∈ server.changedTopics now (ref :: rest) := by
  have others (other : BrokerRef) (member : other ∈ rest)
      : (server.checkBroker now ref).record other = server.record other := by
    rw [checkBroker, record_modifyRecord, if_neg]
    rintro ⟨rfl, _⟩
    exact new member
  have later
      : topic ∈ (server.checkBroker now ref).changedTopics now rest
        ↔ topic ∈ server.changedTopics now rest := by
    rw [mem_changedTopics, mem_changedTopics]
    refine exists_congr (fun other => and_congr_right (fun member => ?_))
    rw [others other member]
  rw [later, mem_changedTopics, mem_changedTopics, exists_mem_cons_iff]
  by_cases changed : checkStatus now (server.record ref) ≠ (server.record ref).status
  · rw [if_pos changed, mem_union_iff, and_iff_right changed, or_assoc]
    exact or_left_comm
  · have unchanged (both : _ ∧ topic ∈ (server.record ref).topics) := changed both.1
    rw [if_neg changed, or_iff_right unchanged]

/-- What the health check still has to do, done at once. -/
def finish : SentinelServer × CacheCall → SentinelServer
  | (server, .checkBrokers now) => server.checkBrokers now
  | (server, .checking now refs topics) =>
      (topics ++ server.changedTopics now refs).foldl invalidateCache
        (refs.foldl (checkBroker now) server)
  | (server, .expiring topics) => topics.foldl invalidateCache server
  | (server, _) => server

/-- A health check that has every broker still once to check. -/
def Checks : SentinelServer × CacheCall → Prop
  | (server, .checkBrokers _) => server.membership.Keyed
  | (_, .checking _ refs _) => refs.Nodup
  | (_, .expiring _) | (_, .checked) => True
  | _ => False

theorem nodup_refs (keyed : server.membership.Keyed)
    : (server.brokers.entries.map Sigma.snd).Nodup := by
  refine server.brokers.nodupKeys.nodup.map_on ?_
  rintro ⟨name, ref⟩ listed ⟨other, _⟩ alsoListed rfl
  have named := record_brokerID keyed (AList.mem_lookup_iff.mpr listed)
  have alsoNamed := record_brokerID keyed (AList.mem_lookup_iff.mpr alsoListed)
  rw [named.symm.trans alsoNamed]

/-- Whatever is chosen, a region leaves the outcome as it was. -/
theorem Checks.region {call : CacheCall} (checks : Checks (server, call)) (choice : Nat)
    : Checks (server.cacheRegion choice call)
      ∧ SameTables (finish (server.cacheRegion choice call)) (finish (server, call)) := by
  have perm {A : Type} {items : List A} {item : A} (found : items[choice]? = some item)
      : items.Perm (item :: items.eraseIdx choice) := by
    obtain ⟨bound, rfl⟩ := List.getElem?_eq_some_iff.mp found
    exact (getElem_cons_eraseIdx_perm bound).symm
  cases call with
  | checkBrokers now => exact ⟨nodup_refs checks, rfl, fun _ => rfl⟩
  | checking now refs topics =>
      simp only [cacheRegion]
      cases found : refs[choice]? with
      | none =>
          by_cases none : refs = []
          · subst none
            exact ⟨trivial, sameTables_invalidate (by simp [changedTopics]) server⟩
          · simp only [if_neg none]
            exact ⟨checks, rfl, fun _ => rfl⟩
      | some ref =>
          have order := perm found
          have unique := nodup_cons.mp (order.nodup_iff.mp checks)
          refine ⟨unique.2, ?_⟩
          simp only [finish, order.foldl_eq server, foldl_cons]
          refine sameTables_invalidate (fun topic => ?_) _
          rw [mem_append, mem_append]
          refine (mem_changedTopics_check unique.1 topics).trans (or_congr_right ?_)
          rw [mem_changedTopics, mem_changedTopics]
          exact exists_congr (fun other => and_congr_left (fun _ => order.mem_iff.symm))
  | expiring topics =>
      simp only [cacheRegion]
      cases found : topics[choice]? with
      | none =>
          by_cases none : topics = []
          · subst none
            exact ⟨trivial, rfl, fun _ => rfl⟩
          · simp only [if_neg none]
            exact ⟨checks, rfl, fun _ => rfl⟩
      | some topic =>
          exact ⟨trivial, sameTables_invalidate (fun other => (perm found).mem_iff.symm) server⟩
  | checked => exact ⟨trivial, rfl, fun _ => rfl⟩
  | registerBroker | registering | keepAlive | keepingAlive | unregisterBroker | unregistering
  | query | acknowledged => exact checks.elim

/-- A loop that drops caches, from its first topic to its end. -/
theorem cacheAlone_drops (call : List GoString → CacheCall)
    (drops
      : ∀ server topic rest,
          cacheRegion server 0 (call (topic :: rest)) = (server.invalidateCache topic, call rest))
    (topics : List GoString) (server : SentinelServer)
    : CacheAlone (server, call topics) (topics.foldl invalidateCache server, call []) := by
  induction topics generalizing server with
  | nil => exact .refl
  | cons topic rest ih => exact .head ⟨0, drops server topic rest⟩ (ih _)

/-- A health check can always be brought to its end. -/
theorem checking_ends (now : Int) (refs : List BrokerRef) (topics : List GoString)
    (server : SentinelServer)
    : ∃ server', CacheAlone (server, .checking now refs topics) (server', .checked) := by
  induction refs generalizing server topics with
  | nil =>
      have expired := cacheAlone_drops .expiring (fun _ _ _ => rfl) topics server
      exact ⟨_, .head ⟨0, rfl⟩ (.tail expired ⟨0, rfl⟩)⟩
  | cons ref rest ih =>
      obtain ⟨server', ends⟩ := ih _ (server.checkBroker now ref)
      exact ⟨server', .head ⟨0, rfl⟩ ends⟩

/-- Whatever the order in which it meets brokers and topics, the health check does what
`checkBrokers` does.
-/
theorem cacheAlone_checkBrokers (now : Int) (keyed : server.membership.Keyed)
    : (∃ server', CacheAlone (server, .checkBrokers now) (server', .checked))
      ∧ ∀ server', CacheAlone (server, .checkBrokers now) (server', .checked)
          → SameTables server' (server.checkBrokers now) := by
  constructor
  · obtain ⟨server', ends⟩ := checking_ends now (server.brokers.entries.map Sigma.snd) [] server
    exact ⟨server', .head ⟨0, rfl⟩ ends⟩
  · intro server' alone
    suffices kept
        : ∀ state, CacheAlone (server, .checkBrokers now) state
            → Checks state ∧ SameTables (finish state) (server.checkBrokers now) from
      (kept _ alone).2
    intro state alone
    -- by induction on the regions
    induction alone with
    | refl => exact ⟨keyed, rfl, fun _ => rfl⟩
    | tail _ region ih =>
        obtain ⟨choice, rfl⟩ := region
        obtain ⟨checks, tables, caches⟩ := ih.1.region choice
        exact ⟨checks, tables.trans ih.2.1, fun topic => (caches topic).trans (ih.2.2 topic)⟩

def pairChecking : SentinelServer :=
  ((newSentinelServer none).addBroker ⟨lit "a", lit "x", .healthy, [lit "t"], 0⟩).addBroker
    ⟨lit "b", lit "y", .healthy, [lit "t", lit "u"], seconds 100⟩

/-- Two brokers, one of them silent for two minutes, and a cache of its topic. -/
def pairChecked : SentinelServer := World.storeCache pairChecking (lit "t") [0, 1] 2

/-- The silent broker is found, and the topic loses its cache. -/
theorem cacheAlone_checkBrokers_pair
    : (pairChecked.replicationCache.lookup (lit "t")).isSome
      ∧ ∃ server',
          CacheAlone (pairChecked, .checkBrokers (seconds 120)) (server', .checked)
          ∧ server'.records.map BrokerInfo.status = [.suspicious, .healthy]
          ∧ server'.replicationCache.lookup (lit "t") = none := by
  have stored (server : SentinelServer)
      : (World.storeCache server (lit "t") [0, 1] 2).membership = server.membership := rfl
  have keyed : pairChecked.membership.Keyed := by
    rw [pairChecked, stored, pairChecking, membership_addBroker, membership_addBroker]
    exact .change (Membership.Keyed.change (fun _ _ found => by cases found) _) _
  obtain ⟨⟨server', ends⟩, same⟩ := cacheAlone_checkBrokers (seconds 120) keyed
  obtain ⟨tables, caches⟩ := same server' ends
  refine ⟨by decide +kernel, server', ends, ?_, ?_⟩
  · have records := congrArg SentinelServer.records tables
    simp only at records
    rw [records]
    decide +kernel
  · rw [caches]
    decide +kernel

section

variable (withoutEtcd : server.etcdManager = none) (free : server.mu = false)
  (now : Int) (brokerID address : GoString)
include withoutEtcd free

theorem cacheAlone_registerBroker (topics : List GoString) (faults : EtcdFaults)
    : ∃ server' ack,
        server.registerBroker now brokerID address topics faults = .returned server' ack
        ∧ CacheAlone (server, .registerBroker now brokerID address topics)
            (server', .acknowledged ack) := by
  cases known : (server.brokers.lookup brokerID).isSome with
  | true =>
      refine ⟨server, { success := false, errorMessage := lit "Broker已存在" }, ?_, .single ⟨0, ?_⟩⟩
      · simp [registerBroker, free, known]
      · simp [cacheRegion, known]
  | false =>
      have dropped := cacheAlone_drops .registering (fun _ _ _ => rfl) topics
        (server.addBroker ⟨brokerID, address, .healthy, topics, now⟩)
      refine ⟨_, _, ?_, .head ⟨0, ?_⟩ (.tail dropped ⟨0, rfl⟩)⟩
      · simp [registerBroker, free, known, withoutEtcd]
      · simp [cacheRegion, known]

theorem cacheAlone_keepAlive (lease : Int64) (fault : Option GoError)
    : ∃ server' ack,
        server.keepAlive now brokerID address lease fault = .returned server' ack
        ∧ CacheAlone (server, .keepAlive now brokerID address) (server', .acknowledged ack) := by
  refine ⟨server.observeBroker now brokerID address,
    { success := true, errorMessage := lit "心跳更新成功" }, ?_, ?_⟩
  · simp [keepAlive, free, withoutEtcd]
  · cases known : server.brokers.lookup brokerID with
    | none => exact .single ⟨0, by simp only [cacheRegion, known, observeBroker]⟩
    | some ref =>
        refine .head (b := (server, .keepingAlive now ref address)) ⟨0, ?_⟩ (.single ⟨0, ?_⟩)
        · simp only [cacheRegion, known]
        · simp only [cacheRegion, observeBroker, known]

theorem cacheAlone_unregisterBroker (fault : Option GoError)
    : ∃ server' ack,
        server.unregisterBroker brokerID fault = .returned server' ack
        ∧ CacheAlone (server, .unregisterBroker brokerID) (server', .acknowledged ack) := by
  have unregistering := cacheAlone_drops (.unregistering brokerID) (fun _ _ _ => rfl)
  cases known : server.brokers.lookup brokerID with
  | none =>
      refine ⟨server, { success := false, errorMessage := lit "Broker不存在" }, ?_, .single ⟨0, ?_⟩⟩
      · simp [unregisterBroker, removeRegistered, free, known, withoutEtcd]
      · simp only [cacheRegion, known]
  | some ref =>
      refine ⟨server.dropBroker brokerID (server.record ref).topics,
        { success := true, errorMessage := [] }, ?_, .head ⟨0, ?_⟩
          (.tail (unregistering (server.record ref).topics
            { server with hashRing := server.hashRing.removeNode brokerID }) ⟨0, rfl⟩)⟩
      · simp [unregisterBroker, removeRegistered, free, known, withoutEtcd]
      · simp only [cacheRegion, known]

end

end CacheAlone

end SentinelServer

end Goulette.Sentinel
