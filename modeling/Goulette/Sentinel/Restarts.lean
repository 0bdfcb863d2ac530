import Goulette.Sentinel.Operations

/-! The broker table of a sentinel in etcd mode over a restart, which replays the logged
registrations and then adds the brokers with a heartbeat.
-/

namespace Goulette.Sentinel

open Goulette.Go Goulette.Storage Runs LastWrite

variable {brokerID : GoString}

namespace SentinelServer

def addressOf (server : SentinelServer) (brokerID : GoString) : Option GoString :=
  (server.brokers.lookup brokerID).map (fun ref => (server.record ref).address)

variable {server : SentinelServer}

theorem addressOf_eq_none
    : server.addressOf brokerID = none ↔ server.brokers.lookup brokerID = none := by
  rw [addressOf, Option.map_eq_none_iff]

/-- A reference of the table lies inside the records. -/
theorem ref_lt (keyed : server.membership.Keyed) {ref : BrokerRef}
    (found : server.brokers.lookup brokerID = some ref)
    : ref < server.records.length := by
  have name := keyed brokerID ref found
  simpa [membership] using (List.getElem?_eq_some_iff.mp name).1

theorem addressOf_addBroker (keyed : server.membership.Keyed) (info : BrokerInfo)
    (brokerID : GoString)
    : (server.addBroker info).addressOf brokerID
      = if info.brokerID = brokerID then some info.address else server.addressOf brokerID := by
  by_cases here : info.brokerID = brokerID
  · subst here
    simp [addressOf, addBroker, record]
  · rw [if_neg here, addressOf, addressOf]
    simp only [addBroker, AList.lookup_insert_ne (Ne.symm here)]
    cases found : server.brokers.lookup brokerID with
    | none => rfl
    | some ref =>
        have bound := ref_lt keyed found
        simp [record, List.getElem?_append_left bound]

theorem addressOf_dropBroker (server : SentinelServer) (gone : GoString) (topics : List GoString)
    (brokerID : GoString)
    : (server.dropBroker gone topics).addressOf brokerID
      = if gone = brokerID then none else server.addressOf brokerID := by
  have caches := invalidateCaches_eq
    { server with hashRing := server.hashRing.removeNode gone } topics
  simp only [dropBroker, caches]
  by_cases here : gone = brokerID
  · subst here
    simp [addressOf]
  · rw [if_neg here, addressOf, addressOf]
    simp only [AList.lookup_erase_ne (Ne.symm here), record]

/-- A sign of life changes the address of one broker. -/
theorem addressOf_observeBroker (keyed : server.membership.Keyed) (now : Int)
    (brokerID address other : GoString)
    : (server.observeBroker now brokerID address).addressOf other
      = if brokerID = other then some address else server.addressOf other := by
  unfold observeBroker
  cases found : server.brokers.lookup brokerID with
  | none => exact addressOf_addBroker keyed _ other
  | some ref =>
      have bound := ref_lt keyed found
      by_cases here : brokerID = other
      · subst here
        simp [addressOf, modifyRecord, found, record, bound]
      · rw [if_neg here, addressOf, addressOf]
        simp only [modifyRecord]
        cases foundToo : server.brokers.lookup other with
        | none => rfl
        | some otherRef =>
            -- the name of the record tells the references apart
            have apart : ref ≠ otherRef := by
              rintro rfl
              have name := keyed brokerID ref found
              rw [keyed other ref foundToo] at name
              exact here (Option.some.inj name).symm
            simp [record, List.getElem?_modify, apart]

def HeartbeatChange.address : HeartbeatChange → Option GoString
  | .put broker => broker.map ReplicaBroker.address
  | .delete => none

theorem heartbeatChange_frame (server : SentinelServer) (now : Int) (brokerID : GoString)
    (change : HeartbeatChange)
    : (server.handleBrokerHeartbeatChange now brokerID change).state.mu = server.mu
      ∧ (server.handleBrokerHeartbeatChange now brokerID change).state.etcdManager
        = server.etcdManager := by
  have observed (address : GoString)
      : (server.observeBroker now brokerID address).mu = server.mu
        ∧ (server.observeBroker now brokerID address).etcdManager = server.etcdManager := by
    unfold observeBroker
    split <;> exact ⟨rfl, rfl⟩
  unfold handleBrokerHeartbeatChange
  split
  · exact ⟨rfl, rfl⟩
  · split
    · exact ⟨rfl, rfl⟩
    · exact observed _
  · split
    · exact ⟨rfl, rfl⟩
    · split <;> exact ⟨rfl, rfl⟩

/-- A watch event writes the address that it carries; what cannot be decoded writes nothing. -/
theorem addressOf_heartbeatChange (keyed : server.membership.Keyed) (free : server.mu = false)
    (now : Int) (brokerID : GoString) (change : HeartbeatChange) (other : GoString)
    : (server.handleBrokerHeartbeatChange now brokerID change).state.addressOf other
      = if brokerID = other then
          match change with
          | .put broker => (broker.map ReplicaBroker.address).or (server.addressOf brokerID)
          | .delete => none
        else server.addressOf other := by
  cases change with
  | put broker =>
      cases broker with
      | none =>
          by_cases here : brokerID = other
          · subst here
            simp [handleBrokerHeartbeatChange, Outcome.state]
          · simp [handleBrokerHeartbeatChange, Outcome.state, here]
      | some broker =>
          simp only [handleBrokerHeartbeatChange, free, Bool.false_eq_true, if_false,
            Outcome.state, addressOf_observeBroker keyed, Option.map_some, Option.some_or]
  | delete =>
      cases found : server.brokers.lookup brokerID with
      | some ref =>
          simp only [handleBrokerHeartbeatChange, free, found, Option.isSome_some,
            Bool.false_eq_true, if_false, if_true, Outcome.state, addressOf_dropBroker]
      | none =>
          simp only [handleBrokerHeartbeatChange, free, found, Option.isSome_none,
            Bool.false_eq_true, if_false, Outcome.state]
          by_cases here : brokerID = other
          · subst here
            rw [if_pos rfl, addressOf_eq_none.mpr found]
          · rw [if_neg here]

end SentinelServer

inductive EtcdAction
  | registerBroker (brokerID address : GoString) (topics : Option (List GoString))
      (faults : EtcdFaults)
  | keepAlive (brokerID address : GoString) (lease : Int64) (fault : Option GoError)
  | unregisterBroker (brokerID : GoString) (fault : Option GoError)
  | heartbeatChange (brokerID : GoString) (change : SentinelServer.HeartbeatChange)

/-- A sentinel with the records that etcd holds: logged operations by their key, and the values of
the heartbeat keys by the broker of the key. Heartbeat keys are also changed by others; their
changes reach this sentinel as watch events.
-/
structure EtcdSentinel where
  server : SentinelServer
  operations : List (GoString × Operation)
  heartbeats : List (GoString × ReplicaBroker)

namespace EtcdSentinel

def start (em : EtcdManager) : EtcdSentinel :=
  { server := .newSentinelServer (some em), operations := [], heartbeats := [] }

/-- The log behind a registration; a broker that is in the table is not logged. -/
def logRegistration (state : EtcdSentinel) (brokerID address : GoString)
    (topics : Option (List GoString)) (fault : Option LogFault)
    : List (GoString × Operation) :=
  match state.server.etcdManager with
  | none => state.operations
  | some em =>
      if state.server.mu ∨ (state.server.brokers.lookup brokerID).isSome then state.operations
      else
        match em.loggedID fault with
        | none => state.operations
        | some id =>
            SortedRecords.put (operationKey id) (.registerBroker brokerID address topics)
              state.operations

def renewedHeartbeats (state : EtcdSentinel) (brokerID address : GoString) (lease : Int64)
    (fault : Option GoError)
    : List (GoString × ReplicaBroker) :=
  match state.server.etcdManager with
  | none => state.heartbeats
  | some em =>
      match em.renewBrokerHeartbeat brokerID lease fault with
      | .returned _ none => SortedRecords.put brokerID ⟨brokerID, address, 0⟩ state.heartbeats
      | _ => state.heartbeats

def revokedHeartbeats (state : EtcdSentinel) (brokerID : GoString) (fault : Option GoError)
    : List (GoString × ReplicaBroker) :=
  match state.server.etcdManager with
  | none => state.heartbeats
  | some em =>
      match em.unregisterBrokerHeartbeat brokerID fault with
      | .returned _ none =>
          if (em.leases.lookup brokerID).isSome then
            SortedRecords.erase brokerID state.heartbeats
          else state.heartbeats
      | _ => state.heartbeats

/-- A value that cannot be decoded is passed over by the watch and by the recovery. -/
def changedHeartbeats (state : EtcdSentinel) (brokerID : GoString)
    : SentinelServer.HeartbeatChange → List (GoString × ReplicaBroker)
  | .put (some broker) => SortedRecords.put brokerID broker state.heartbeats
  | .put none => SortedRecords.erase brokerID state.heartbeats
  | .delete => SortedRecords.erase brokerID state.heartbeats

def step (state : EtcdSentinel) (action : Int × EtcdAction) : EtcdSentinel :=
  match action.2 with
  | .registerBroker brokerID address topics faults =>
      { state with
        server :=
          (state.server.registerBroker action.1 brokerID address (topics.getD []) faults).state
        operations := state.logRegistration brokerID address topics faults.log }
  | .keepAlive brokerID address lease fault =>
      { state with
        server := (state.server.keepAlive action.1 brokerID address lease fault).state
        heartbeats := state.renewedHeartbeats brokerID address lease fault }
  | .unregisterBroker brokerID fault =>
      { state with
        server := (state.server.unregisterBroker brokerID fault).state
        heartbeats := state.revokedHeartbeats brokerID fault }
  | .heartbeatChange brokerID change =>
      { state with
        server := (state.server.handleBrokerHeartbeatChange action.1 brokerID change).state
        heartbeats := state.changedHeartbeats brokerID change }

def storedHeartbeats (state : EtcdSentinel) : List ReplicaBroker := state.heartbeats.map Prod.snd

def heartbeatOf (state : EtcdSentinel) (brokerID : GoString) : Option GoString :=
  (SortedRecords.get brokerID state.heartbeats).map ReplicaBroker.address

def Restored (state : EtcdSentinel) : Prop :=
  ∀ (em : EtcdManager) (now : Int), ∃ recovered,
    SentinelServer.start (some em) now (.ok (storedLogs state.operations))
        (.ok state.storedHeartbeats)
      = some recovered
    ∧ ∀ brokerID, recovered.addressOf brokerID = state.server.addressOf brokerID

end EtcdSentinel

def Operation.registers (brokerID : GoString) : Operation → Option GoString
  | .registerBroker registered address _ => if registered = brokerID then some address else none
  | _ => none

inductive Operation.Registration : Operation → Prop
  | intro {brokerID address : GoString} {topics : List GoString}
    (wellformed : (Operation.registerBroker brokerID address (some topics)).Wellformed)
    : Registration (.registerBroker brokerID address (some topics))

namespace SentinelServer

variable {server : SentinelServer}

theorem replayOperation_registration (keyed : server.membership.Keyed) {operation : Operation}
    (registration : operation.Registration) (now : Int)
    : ∃ next,
        server.replayOperation now operation.log none = .done next
        ∧ next.membership.Keyed
        ∧ ∀ brokerID,
            next.addressOf brokerID
            = (operation.registers brokerID).or (server.addressOf brokerID) := by
  cases registration with
  | @intro brokerID address topics wellformed =>
      have replay := replayOperation_log wellformed (Option.some_ne_none topics) server now none
      refine ⟨_, replay, ?_, ?_⟩
      · rw [membership_addBroker]
        exact keyed.change _
      · intro other
        rw [addressOf_addBroker keyed]
        simp only [Operation.registers]
        split <;> rfl

/-- A log of registrations is replayed to its end, and the last address written stays. -/
theorem replayOperations_registrations {operations : List (GoString × Operation)}
    (registrations : ∀ record ∈ operations, record.2.Registration) (keyed : server.membership.Keyed)
    (now : Int)
    : ∃ next,
        server.replayOperations now (storedLogs operations) = some (next, none)
        ∧ next.membership.Keyed
        ∧ ∀ brokerID,
            next.addressOf brokerID
            = last (fun record => record.2.registers brokerID) operations
                (server.addressOf brokerID) := by
  refine replayOperations_storedLogs (fun server => server.membership.Keyed) addressOf
    (fun operation brokerID => operation.registers brokerID) ?_ keyed
  intro record member server keyed
  exact replayOperation_registration keyed (registrations record member) now

/-- Heartbeats whose values name the broker of the key give their addresses to the table. -/
theorem addressOf_recoverBrokers (keyed : server.membership.Keyed)
    {heartbeats : List (GoString × ReplicaBroker)} (sorted : SortedRecords.Sorted heartbeats)
    (named : ∀ record ∈ heartbeats, record.2.brokerID = record.1) (now : Int) (brokerID : GoString)
    : ((heartbeats.map Prod.snd).foldl (recoverBroker now) server).addressOf brokerID
      = ((SortedRecords.get brokerID heartbeats).map ReplicaBroker.address).or
          (server.addressOf brokerID) := by
  rw [List.foldl_map, ← sorted.last_eq_get]
  refine (last_foldl (fun server : SentinelServer => server.addressOf brokerID)
    (fun server => server.membership.Keyed) ?_ ?_ keyed).2
  · intro server record _ keyed
    rw [recoverBroker, membership_addBroker]
    exact keyed.change _
  · intro server record member keyed
    rw [recoverBroker, addressOf_addBroker keyed, named record member]
    split <;> rfl

end SentinelServer

namespace EtcdSentinel

def logged (state : EtcdSentinel) (brokerID : GoString) : Option GoString :=
  last (fun record => record.2.registers brokerID) state.operations none

/-- The address of a broker behind a recovery: that of its heartbeat, else that of its last
registration in the order of the keys.
-/
theorem recovered {state : EtcdSentinel}
    (registrations : ∀ record ∈ state.operations, record.2.Registration)
    (sorted : SortedRecords.Sorted state.heartbeats)
    (named : ∀ record ∈ state.heartbeats, record.2.brokerID = record.1) (em : EtcdManager)
    (now : Int)
    : ∃ recovered,
        SentinelServer.start (some em) now (.ok (storedLogs state.operations))
            (.ok state.storedHeartbeats)
          = some recovered
        ∧ ∀ brokerID,
            recovered.addressOf brokerID
            = (state.heartbeatOf brokerID).or (state.logged brokerID) := by
  have fresh : (SentinelServer.newSentinelServer (some em)).membership.Keyed := by
    intro brokerID ref found
    cases found
  obtain ⟨next, replay, keyed, addresses⟩ :=
    SentinelServer.replayOperations_registrations registrations fresh now
  refine ⟨next.recoverBrokersFromEtcd now (.ok state.storedHeartbeats), ?_, ?_⟩
  · simp only [SentinelServer.start, SentinelServer.recoverFromEtcd, replay,
      Option.map_some]
  · intro brokerID
    exact (SentinelServer.addressOf_recoverBrokers keyed sorted named now brokerID).trans
      (congrArg _ (addresses brokerID))

end EtcdSentinel

/-! The store mirrors the table. -/

def EtcdAction.Wellformed : EtcdAction → Prop
  | .registerBroker brokerID address topics _ =>
      (Operation.registerBroker brokerID address topics).Wellformed
  | _ => True

namespace EtcdSentinel

/-- A broker that comes by a request is logged, with a list of topics that is not nil. No request
removes a broker, since its record would stay; one that goes with its heartbeat was never logged.
The value of a heartbeat names the broker of its key; one that can no longer be decoded says what
the log says.
-/
def Covered (state : EtcdSentinel) (action : Int × EtcdAction) : Prop :=
  match action.2 with
  | .registerBroker brokerID _ topics faults =>
      (state.server.brokers.lookup brokerID).isSome
      ∨ (topics.isSome ∧ faults.log = none ∧ ∃ em ∈ state.server.etcdManager, em.CountsOn)
  | .keepAlive .. => True
  | .unregisterBroker brokerID _ =>
      state.server.brokers.lookup brokerID = none
      ∨ ∃ em ∈ state.server.etcdManager, em.leaseMu = true
  | .heartbeatChange brokerID (.put (some broker)) => broker.brokerID = brokerID
  | .heartbeatChange brokerID (.put none) =>
      state.server.addressOf brokerID = state.logged brokerID
  | .heartbeatChange brokerID .delete => state.logged brokerID = none

instance (state : EtcdSentinel)
    : (action : Int × EtcdAction) → Decidable (state.Covered action) := fun action => by
  unfold EtcdSentinel.Covered
  split <;> infer_instance

/-- Heartbeats and logged registrations give the addresses of the table. No lease is ever
granted, so that the manager has none.
-/
structure Mirrored (state : EtcdSentinel) : Prop where
  keyed : state.server.membership.Keyed
  mu : state.server.mu = false
  manager
    : ∃ em, state.server.etcdManager = some em ∧ em.leases = ∅ ∧ Counted em state.operations
  registrations : ∀ record ∈ state.operations, record.2.Registration
  sorted : SortedRecords.Sorted state.heartbeats
  named : ∀ record ∈ state.heartbeats, record.2.brokerID = record.1
  addresses
    : ∀ brokerID,
        state.server.addressOf brokerID = (state.heartbeatOf brokerID).or (state.logged brokerID)

variable {state : EtcdSentinel} {em : EtcdManager} {now : Int}

theorem Mirrored.restored (h : state.Mirrored) : state.Restored := by
  intro em now
  obtain ⟨recovered, started, addresses⟩ :=
    state.recovered h.registrations h.sorted h.named em now
  exact ⟨recovered, started, fun brokerID => (addresses brokerID).trans (h.addresses brokerID).symm⟩

theorem Mirrored.start (topicReplicas : GoMap GoString TopicReplicaInfo)
    (operationID : Option GoString)
    : (start (.newEtcdManager topicReplicas operationID)).Mirrored where
  keyed := by
    intro brokerID ref found
    cases found
  mu := rfl
  manager := ⟨_, rfl, rfl, Counted.start _⟩
  registrations := by
    intro record member
    cases member
  sorted := .nil
  named := by
    intro record member
    cases member
  addresses := by
    intro brokerID
    rfl

/-- A change of the lock of the leases alone. -/
theorem Mirrored.locked (h : state.Mirrored) (found : state.server.etcdManager = some em)
    (other : EtcdManager) (leases : other.leases = em.leases)
    (operationID : other.operationID = em.operationID)
    : { state with server := { state.server with etcdManager := other } }.Mirrored := by
  obtain ⟨manager, here, none, counted⟩ := h.manager
  cases found.symm.trans here
  exact {
    keyed := h.keyed
    mu := h.mu
    manager := ⟨other, rfl, leases.trans none, counted.sorted, operationID ▸ counted.passed⟩
    registrations := h.registrations
    sorted := h.sorted
    named := h.named
    addresses := h.addresses
  }

theorem renewBrokerHeartbeat_blocked (empty : em.leases = ∅) (brokerID : GoString) (lease : Int64)
    (fault : Option GoError)
    : em.renewBrokerHeartbeat brokerID lease fault = .blocked { em with leaseMu := true } := by
  cases held : em.leaseMu with
  | true =>
      have same : { em with leaseMu := true } = em := by rw [← held]
      rw [EtcdManager.renewBrokerHeartbeat, if_pos held, same]
  | false =>
      simp [EtcdManager.renewBrokerHeartbeat, EtcdManager.registerBrokerHeartbeat, held, empty]

theorem Mirrored.keepAlive (h : state.Mirrored) (now : Int) (brokerID address : GoString)
    (lease : Int64) (fault : Option GoError)
    : (state.step (now, .keepAlive brokerID address lease fault)).Mirrored := by
  obtain ⟨em, found, empty, counted⟩ := h.manager
  have blocked := renewBrokerHeartbeat_blocked empty brokerID lease fault
  have next := h.locked found { em with leaseMu := true } rfl rfl
  simpa only [step, SentinelServer.keepAlive, renewedHeartbeats, found, blocked, Outcome.state]
    using next

/-- A request to remove a broker that is not there, or one that does not get so far. -/
theorem Mirrored.unregisterBroker (h : state.Mirrored) {fault : Option GoError}
    (covered : state.Covered (now, .unregisterBroker brokerID fault))
    : (state.step (now, .unregisterBroker brokerID fault)).Mirrored := by
  obtain ⟨em, found, empty, counted⟩ := h.manager
  have next := h.locked found em rfl rfl
  cases held : em.leaseMu with
  | true =>
      simpa only [step, SentinelServer.unregisterBroker, revokedHeartbeats, found,
        EtcdManager.unregisterBrokerHeartbeat, held, if_true, Outcome.state] using next
  | false =>
      have absent : state.server.brokers.lookup brokerID = none := by
        rcases covered with absent | ⟨manager, here, waiting⟩
        · exact absent
        · cases found.symm.trans here
          rw [held] at waiting
          cases waiting
      simpa [step, SentinelServer.unregisterBroker, revokedHeartbeats, found,
        EtcdManager.unregisterBrokerHeartbeat, held, empty, SentinelServer.removeRegistered,
        absent, h.mu, Outcome.state] using next

theorem last_put_registration {operations : List (GoString × Operation)}
    (counted : Counted em operations) {currentID : Int64} (counts : em.counter = some currentID)
    (room : currentID < currentID + 1) {address : GoString} {topics : Option (List GoString)}
    (absent : last (fun record => record.2.registers brokerID) operations none = none)
    (other : GoString)
    : last (fun record => record.2.registers other)
        (SortedRecords.put (operationKey (currentID + 1)) (.registerBroker brokerID address topics)
          operations)
        none
      = if brokerID = other then some address
        else last (fun record => record.2.registers other) operations none := by
  obtain ⟨below, above, cut⟩ := counted.cut counts room
  rw [cut.put]
  by_cases here : brokerID = other
  · subst here
    rw [if_pos rfl]
    refine last_middle (by simp [Operation.registers]) (fun later member => ?_) none
    exact last_eq_none.mp absent later (cut.split ▸ by simp [member])
  · rw [if_neg here, last_middle_of_none (by simp [Operation.registers, here]), cut.split]
    rfl

/-- What a logged registration of a new broker does. -/
theorem step_registerBroker (free : state.server.mu = false)
    (found : state.server.etcdManager = some em) {currentID : Int64}
    (counts : em.counter = some currentID) (absent : state.server.brokers.lookup brokerID = none)
    (now : Int) (address : GoString) (topics : List GoString) {faults : EtcdFaults}
    (noFault : faults.log = none)
    : state.step (now, .registerBroker brokerID address (some topics) faults)
      = { state with
          server := topics.foldl SentinelServer.invalidateCache
            { state.server.addBroker
                { brokerID, address, status := .healthy, topics, lastHeartbeat := now } with
              etcdManager := some { em with operationID := some (formatInt (currentID + 1)) } }
          operations :=
            SortedRecords.put (operationKey (currentID + 1))
              (.registerBroker brokerID address (some topics)) state.operations } := by
  have next := em.getNextID_of_counter counts
  simp [step, SentinelServer.registerBroker, logRegistration, free, found, absent, noFault, next,
    EtcdManager.logOperation, EtcdManager.loggedID, Outcome.state]

theorem Mirrored.registerBroker (h : state.Mirrored) {address : GoString}
    {topics : Option (List GoString)} {faults : EtcdFaults}
    (covered : state.Covered (now, .registerBroker brokerID address topics faults))
    (wellformed : (Operation.registerBroker brokerID address topics).Wellformed)
    : (state.step (now, .registerBroker brokerID address topics faults)).Mirrored := by
  obtain ⟨em, found, empty, counted⟩ := h.manager
  cases present : state.server.brokers.lookup brokerID with
  | some ref =>
      simpa [step, SentinelServer.registerBroker, logRegistration, found, present, h.mu,
        Outcome.state] using h
  | none =>
      rcases covered with there | ⟨named, noFault, manager, here, currentID, counts, room⟩
      · simp [present] at there
      cases found.symm.trans here
      obtain ⟨topics, rfl⟩ := Option.isSome_iff_exists.mp named
      -- a broker that is not in the table is nowhere in the store
      have absent := h.addresses brokerID
      rw [SentinelServer.addressOf_eq_none.mpr present] at absent
      obtain ⟨silent, unlogged⟩ := Option.or_eq_none_iff.mp absent.symm
      have caches := SentinelServer.invalidateCaches_eq
        { state.server.addBroker
            { brokerID, address, status := .healthy, topics, lastHeartbeat := now } with
          etcdManager := some { em with operationID := some (formatInt (currentID + 1)) } }
        topics
      rw [step_registerBroker h.mu found counts present now address topics noFault, caches]
      exact {
        keyed := by
          refine Eq.subst (SentinelServer.membership_addBroker _ _).symm ?_
          exact h.keyed.change _
        mu := h.mu
        manager := ⟨_, rfl, empty, counted.record counts room _⟩
        registrations := by
          intro record member
          rcases SortedRecords.eq_or_mem_of_mem_put member with rfl | old
          · exact .intro wellformed
          · exact h.registrations record old
        sorted := h.sorted
        named := h.named
        addresses := by
          intro other
          refine (SentinelServer.addressOf_addBroker h.keyed _ other).trans ?_
          refine Eq.trans ?_
            (congrArg _ (last_put_registration counted counts room unlogged other).symm)
          by_cases here : brokerID = other
          · subst here
            rw [if_pos rfl, if_pos rfl]
            exact (congrArg (Option.or · (some address)) silent).symm
          · rw [if_neg here, if_neg here]
            exact h.addresses other
      }

/-- The decoded address behind a changed heartbeat key. -/
theorem heartbeatOf_changedHeartbeats (sorted : SortedRecords.Sorted state.heartbeats)
    (brokerID : GoString) (change : SentinelServer.HeartbeatChange) (other : GoString)
    : heartbeatOf { state with heartbeats := state.changedHeartbeats brokerID change } other
      = if brokerID = other then change.address else state.heartbeatOf other := by
  have erased
      : (SortedRecords.get other (SortedRecords.erase brokerID state.heartbeats)).map
          ReplicaBroker.address
        = if brokerID = other then none else state.heartbeatOf other := by
    rw [SortedRecords.get_erase, apply_ite (Option.map ReplicaBroker.address)]
    simp only [eq_comm, Option.map_none, heartbeatOf]
  cases change with
  | delete => exact erased
  | put broker =>
      cases broker with
      | none => exact erased
      | some broker =>
          by_cases here : brokerID = other
          · subst here
            rw [if_pos rfl]
            exact congrArg _ (sorted.get_put brokerID broker)
          · rw [if_neg here]
            exact congrArg _
              (SortedRecords.get_put_of_ne (Ne.symm here) broker state.heartbeats)

theorem Mirrored.heartbeatChange (h : state.Mirrored) {change : SentinelServer.HeartbeatChange}
    (covered : state.Covered (now, .heartbeatChange brokerID change))
    : (state.step (now, .heartbeatChange brokerID change)).Mirrored := by
  obtain ⟨mu, etcdManager⟩ := state.server.heartbeatChange_frame now brokerID change
  exact {
    keyed := by
      obtain ⟨made, _, after⟩ := state.server.liveChange_heartbeatChange now brokerID change
      exact Eq.subst after.symm (h.keyed.change made)
    mu := mu.trans h.mu
    manager := by
      obtain ⟨em, found, rest⟩ := h.manager
      exact ⟨em, etcdManager.trans found, rest⟩
    registrations := h.registrations
    sorted := by
      cases change with
      | delete => exact h.sorted.erase brokerID
      | put broker =>
          cases broker with
          | none => exact h.sorted.erase brokerID
          | some broker => exact h.sorted.put brokerID broker
    named := by
      intro record member
      cases change with
      | delete => exact h.named record (List.mem_filter.mp member).1
      | put broker =>
          cases broker with
          | none => exact h.named record (List.mem_filter.mp member).1
          | some broker =>
              rcases SortedRecords.eq_or_mem_of_mem_put member with rfl | old
              · exact covered
              · exact h.named record old
    addresses := by
      intro other
      refine (SentinelServer.addressOf_heartbeatChange h.keyed h.mu now brokerID change other).trans
        (Eq.trans ?_ (congrArg (Option.or · _)
          (heartbeatOf_changedHeartbeats h.sorted brokerID change other).symm))
      by_cases here : brokerID = other
      · subst here
        rw [if_pos rfl, if_pos rfl]
        cases change with
        | delete => exact covered.symm
        | put broker =>
            cases broker with
            | none => exact covered
            | some broker => rfl
      · rw [if_neg here, if_neg here]
        exact h.addresses other
  }

theorem Mirrored.step (h : state.Mirrored) {action : Int × EtcdAction}
    (covered : state.Covered action) (wellformed : action.2.Wellformed)
    : (state.step action).Mirrored := by
  obtain ⟨now, action⟩ := action
  cases action with
  | registerBroker brokerID address topics faults => exact h.registerBroker covered wellformed
  | keepAlive brokerID address lease fault => exact h.keepAlive now brokerID address lease fault
  | unregisterBroker brokerID fault => exact h.unregisterBroker covered
  | heartbeatChange brokerID change => exact h.heartbeatChange covered

end EtcdSentinel

/-- As long as every step is covered, a new sentinel restores the brokers and their addresses,
whenever the old one stops.
-/
theorem restored_of_covered (topicReplicas : GoMap GoString TopicReplicaInfo)
    (operationID : Option GoString) {actions : List (Int × EtcdAction)}
    (wellformed : ∀ action ∈ actions, action.2.Wellformed)
    (covered
      : AllSteps EtcdSentinel.step EtcdSentinel.Covered
          (.start (.newEtcdManager topicReplicas operationID)) actions)
    : ∀ visited ∈ actions.scanl EtcdSentinel.step
          (.start (.newEtcdManager topicReplicas operationID)),
        visited.Restored := by
  intro visited member
  have mirrored := (covered.and wellformed).always
    (fun state action allowed (h : state.Mirrored) => h.step allowed.1 allowed.2)
    (.start topicReplicas operationID)
  exact (mirrored visited member).restored

/-- A broker registers, waits in vain for its heartbeat and moves; another one comes and goes
with its heartbeat alone.
-/
def comesAndMoves : List (Int × EtcdAction) := [
  (0, .registerBroker (lit "first") (lit "host:1") (some [lit "t"]) .none),
  (1, .registerBroker (lit "first") (lit "host:2") none .none),
  (2, .heartbeatChange (lit "second") (.put (some ⟨lit "second", lit "host:2", 0⟩))),
  (3, .unregisterBroker (lit "third") none),
  (4, .keepAlive (lit "first") (lit "host:1") 7 none),
  (5, .heartbeatChange (lit "first") (.put (some ⟨lit "first", lit "host:3", 0⟩))),
  (6, .heartbeatChange (lit "second") .delete)
]

theorem restored_comesAndMoves
    : (comesAndMoves.foldl EtcdSentinel.step
          (.start (.newEtcdManager ∅ (some (lit "0"))))).server.addressOf (lit "first")
        = some (lit "host:3")
      ∧ ∀ visited ∈ comesAndMoves.scanl EtcdSentinel.step
            (.start (.newEtcdManager ∅ (some (lit "0")))),
          visited.Restored := by
  refine ⟨by decide +kernel, restored_of_covered ∅ (some (lit "0")) ?_ (by decide +kernel)⟩
  simp [comesAndMoves, EtcdAction.Wellformed, Operation.Wellformed, validUTF8_lit]

/-- A broker registers and goes. Its registration stays in the log, and no other record takes it
back.
-/
def registeredAndGone : EtcdSentinel :=
  List.foldl EtcdSentinel.step (.start (.newEtcdManager ∅ (some (lit "0")))) [
    (0, .registerBroker (lit "first") (lit "host:1") (some [lit "t"]) .none),
    (1, .unregisterBroker (lit "first") none)
  ]

/-- The recovery brings the broker back. -/
theorem not_restored_registeredAndGone : ¬registeredAndGone.Restored := by
  intro restored
  obtain ⟨recovered, started, same⟩ := restored (.newEtcdManager ∅ (some (lit "1"))) 2
  have back
      : (SentinelServer.start (some (.newEtcdManager ∅ (some (lit "1")))) 2
            (.ok (storedLogs registeredAndGone.operations))
            (.ok registeredAndGone.storedHeartbeats)).bind
          (fun server => server.addressOf (lit "first"))
        = some (lit "host:1") := by
    decide +kernel
  have gone : registeredAndGone.server.addressOf (lit "first") = none := by decide +kernel
  rw [started, Option.bind_some, same, gone] at back
  cases back

end Goulette.Sentinel
