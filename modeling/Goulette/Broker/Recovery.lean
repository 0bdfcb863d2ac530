import Goulette.Broker.Deliveries

/-! Recovery of a broker from its log: a restart writes the logged messages to new fragments, also
those that the Raft node refused.
-/

namespace Goulette.Broker

open Goulette.Go Goulette.Raft Goulette.Storage ByteFrames FileStore Runs List

variable {entry : WALEntry} {server : BrokerServer} {topic : GoString}

def logFile (file : Nat × List WALEntry) : Nat × Bytes :=
  (file.1, walHeader ++ stream WALEntry.encode file.2)

/-- The files of the log hold a list of entries, the current one being the last file. -/
def LogHolds (wal : WAL) (entries : List WALEntry) : Prop :=
  ∃ (earlier : List (Nat × List WALEntry)) (last : List WALEntry),
    wal.files = (earlier ++ [(wal.current, last)]).map logFile
    ∧ (∀ file ∈ earlier, file.1 < wal.current)
    ∧ ((earlier ++ [(wal.current, last)]).map Prod.snd).flatten = entries

section Files

variable {second : Nat} {files : List (Nat × Bytes)} (later : ∀ file ∈ files, file.1 < second)
include later

/-- A file named after the last second is behind all others. -/
theorem createFile_append (content : Bytes) (rest : List (Nat × Bytes))
    : createFile second content (files ++ rest) = files ++ createFile second content rest := by
  induction files with
  | nil => rfl
  | cons file more ih =>
      have below : file.1 < second := later file mem_cons_self
      rw [cons_append, createFile, if_neg (by omega), if_neg (by omega),
        ih (fun other member => later other (mem_cons_of_mem _ member)), cons_append]

theorem fileContent_append (rest : List (Nat × Bytes))
    : fileContent second (files ++ rest) = fileContent second rest := by
  induction files with
  | nil => rfl
  | cons file more ih =>
      obtain ⟨name, old⟩ := file
      have below : name < second := later (name, old) mem_cons_self
      have apart : (second == name) = false := by
        rw [beq_eq_false_iff_ne]
        omega
      have same := ih (fun other member => later other (mem_cons_of_mem _ member))
      simpa [fileContent, lookup_cons, apart] using same

end Files

/-- The replay of some files hands their entries in order to a handler that accepts them. -/
theorem replay_files {S : Type} {handler : S → WALEntry → S × Option GoError}
    {parts : List (Nat × List WALEntry)}
    (accepts
      : ∀ entry ∈ (parts.map Prod.snd).flatten, ∀ state, (handler state entry).2 = none)
    (fits : ∀ entry ∈ (parts.map Prod.snd).flatten, entry.entrySize < 2 ^ 32) (state : S)
    : (parts.map logFile).foldl (fun state file => (replayFile handler state file.2).1) state
      = (parts.map Prod.snd).flatten.foldl (fun state entry => (handler state entry).1)
          state := by
  rw [foldl_map, ← replayFiles_whole accepts fits, foldl_map]
  rfl

namespace LogHolds

variable {wal : WAL} {entries : List WALEntry}

/-- The log a broker starts with. -/
theorem new (maxFileSize : Int) (second : Nat) : LogHolds (.newWAL [] maxFileSize second) [] :=
  ⟨[], [], rfl, fun _ member => absurd member not_mem_nil, rfl⟩

/-- A start in a later second adds an empty file. -/
theorem restart (h : LogHolds wal entries) (maxFileSize : Int) {second : Nat}
    (later : wal.current < second)
    : LogHolds (.newWAL wal.files maxFileSize second) entries := by
  obtain ⟨earlier, last, files, below, all⟩ := h
  have everyFile : ∀ file ∈ earlier ++ [(wal.current, last)], file.1 < second :=
    forall_mem_append.mpr ⟨fun file old => Nat.lt_trans (below file old) later,
      forall_mem_singleton.mpr later⟩
  have names : ∀ file ∈ wal.files, file.1 < second := by
    intro file member
    rw [files] at member
    obtain ⟨source, found, rfl⟩ := mem_map.mp member
    exact everyFile source found
  have added := createFile_append names walHeader []
  rw [append_nil] at added
  refine ⟨earlier ++ [(wal.current, last)], [], ?_, everyFile, by simpa using all⟩
  rw [WAL.newWAL, WAL.createNewFile, added, files]
  simp [logFile, createFile]

/-- A returned write adds its entry at the end. -/
theorem write (h : LogHolds wal entries) {next : WAL} (written : wal.write entry = some next)
    : LogHolds next (entries ++ [entry]) := by
  obtain ⟨earlier, last, files, below, all⟩ := h
  have names : ∀ file ∈ earlier.map logFile, file.1 < wal.current := by
    intro file member
    obtain ⟨source, found, rfl⟩ := mem_map.mp member
    exact below source found
  rw [map_append] at files
  have content : wal.content = walHeader ++ stream WALEntry.encode last := by
    rw [WAL.content, files, fileContent_append names]
    simp [fileContent, logFile]
  unfold WAL.write at written
  split at written
  · cases written
  · cases written
    refine ⟨earlier, last ++ [entry], ?_, below, by simp [← all]⟩
    simp only
    rw [content, files, createFile_append names]
    simp [logFile, createFile, stream_append]

theorem replay (h : LogHolds wal entries) (fits : ∀ entry ∈ entries, entry.entrySize < 2 ^ 32)
    {S : Type} {handler : S → WALEntry → S × Option GoError}
    (accepts : ∀ entry ∈ entries, ∀ state, (handler state entry).2 = none)
    {directory : GlobDirectory Nat} (literal : hasMeta directory.path = false) (state : S)
    : wal.replay handler directory state
      = entries.foldl (fun state entry => (handler state entry).1) state := by
  obtain ⟨earlier, last, files, _, rfl⟩ := h
  rw [WAL.replay, directory.literal literal, files]
  exact replay_files accepts fits state

end LogHolds

def Answered.replay (answered : Answered) (entry : WALEntry) : Answered :=
  if entry.type = 1 then
    Function.update answered entry.topic
      (answered entry.topic ++ [(entry.messageID, entry.payload)])
  else if entry.type = 2 then Function.update answered entry.topic []
  else answered

def messageIDs (entries : List WALEntry) : List UInt64 :=
  (entries.filter (fun entry => entry.type = 1)).map WALEntry.messageID

theorem messageIDs_append (entries more : List WALEntry)
    : messageIDs (entries ++ more) = messageIDs entries ++ messageIDs more := by
  simp [messageIDs]

theorem messageIDs_message (isMessage : entry.type = 1) (rest : List WALEntry)
    : messageIDs (entry :: rest) = entry.messageID :: messageIDs rest := by
  simp [messageIDs, isMessage]

theorem messageIDs_other (other : entry.type ≠ 1) (rest : List WALEntry)
    : messageIDs (entry :: rest) = messageIDs rest := by
  simp [messageIDs, other]

/-- A plain topic that can name a directory. -/
def DirectoryName (topic : GoString) : Prop :=
  PlainName topic ∧ (pathParts topic).any unnameable = false

instance (topic : GoString) : Decidable (DirectoryName topic) := inferInstanceAs (Decidable (_ ∧ _))

/-- Entries of a log behind a counter: plain topics that fit, and IDs that go on increasing. -/
structure Continues (counter : UInt64) (entries : List WALEntry) : Prop where
  plain : ∀ entry ∈ entries, entry.type = 1 → DirectoryName entry.topic
  fits : ∀ entry ∈ entries, entry.entrySize < 2 ^ 32
  increasing : (counter :: messageIDs entries).Pairwise (· < ·)

/-- What a server is after some entries were replayed onto another one. -/
structure Restored (server : BrokerServer) (entries : List WALEntry) (answered : Answered)
    (restored : BrokerServer) : Prop where
  stored
    : Stored restored.fragmentMgr restored.messageCounter (entries.foldl Answered.replay answered)
  grows : server.messageCounter ≤ restored.messageCounter
  counted : ∀ messageID ∈ messageIDs entries, messageID ≤ restored.messageCounter
  wal : restored.wal = server.wal
  raftManager : restored.raftManager = server.raftManager

namespace Restored

variable {server : BrokerServer} {answered : Answered}

/-- Nothing is replayed. -/
theorem refl (stored : Stored server.fragmentMgr server.messageCounter answered)
    : Restored server [] answered server where
  stored := stored
  grows := UInt64.le_refl _
  counted := fun _ member => absurd member not_mem_nil
  wal := rfl
  raftManager := rfl

/-- One replay after another. -/
theorem trans {middle last : BrokerServer} {entries more : List WALEntry}
    (first : Restored server entries answered middle)
    (second : Restored middle more (entries.foldl Answered.replay answered) last)
    : Restored server (entries ++ more) answered last where
  stored := by
    rw [foldl_append]
    exact second.stored
  grows := UInt64.le_trans first.grows second.grows
  counted := by
    intro messageID member
    rw [messageIDs_append] at member
    rcases mem_append.mp member with early | late
    · exact UInt64.le_trans (first.counted messageID early) second.grows
    · exact second.counted messageID late
  wal := second.wal.trans first.wal
  raftManager := second.raftManager.trans first.raftManager

end Restored

theorem DirectoryName.storeMessage (named : DirectoryName topic) (fm : FragmentManager) (now : Int)
    (messageID : UInt64) (payload : Bytes)
    : fm.storeMessage now topic messageID payload
      = (fm.writeMessage now topic messageID payload, none) := by
  simp [FragmentManager.storeMessage, FragmentManager.directoryError, named.2]

/-- A message is written with an ID above the counter, which becomes the counter. -/
theorem Stored.replayEntry {answered : Answered} {rest : List WALEntry}
    (h : Stored server.fragmentMgr server.messageCounter answered)
    (continues : Continues server.messageCounter (entry :: rest)) (now : Int)
    : Restored server [entry] answered (BrokerServer.replayEntry now server entry).1
      ∧ Continues (BrokerServer.replayEntry now server entry).1.messageCounter rest := by
  obtain ⟨plain, fits, increasing⟩ := continues
  have plainRest : ∀ other ∈ rest, other.type = 1 → DirectoryName other.topic :=
    fun other member => plain other (mem_cons_of_mem _ member)
  have fitsRest : ∀ other ∈ rest, other.entrySize < 2 ^ 32 :=
    fun other member => fits other (mem_cons_of_mem _ member)
  have small : entry.payload.length < 2 ^ 32 := by
    have size := fits entry mem_cons_self
    rw [WALEntry.entrySize] at size
    omega
  unfold BrokerServer.replayEntry
  by_cases isMessage : entry.type = 1
  · rw [messageIDs_message isMessage] at increasing
    have above : server.messageCounter < entry.messageID :=
      rel_of_pairwise_cons increasing mem_cons_self
    have named := plain entry mem_cons_self isMessage
    have written := h.writeMessage named.1 small above now
    rw [if_pos isMessage, named.storeMessage, if_pos above]
    refine ⟨{ stored := ?_, grows := UInt64.le_of_lt above, counted := ?_, wal := rfl,
              raftManager := rfl }, plainRest, fitsRest, increasing.tail⟩
    · simpa [Answered.replay, isMessage] using written
    · intro messageID member
      rw [messageIDs_message isMessage] at member
      rw [mem_singleton.mp member]
      exact UInt64.le_refl _
  · rw [messageIDs_other isMessage] at increasing
    have none : ∀ messageID ∈ messageIDs [entry], messageID ≤ server.messageCounter := by
      intro messageID member
      rw [messageIDs_other isMessage] at member
      cases member
    rw [if_neg isMessage]
    split
    all_goals
      refine ⟨{ stored := ?_, grows := UInt64.le_refl _, counted := none, wal := rfl,
                raftManager := rfl }, plainRest, fitsRest, increasing⟩
    · next removes =>
        simpa [Answered.replay, isMessage, removes] using h.closeTopic entry.topic
    · next other => simpa [Answered.replay, isMessage, other] using h

/-- Replaying entries restores the messages they log, by induction on the entries. -/
theorem Stored.replay {entries : List WALEntry} {answered : Answered}
    (h : Stored server.fragmentMgr server.messageCounter answered)
    (continues : Continues server.messageCounter entries) (now : Int)
    : Restored server entries answered
        (entries.foldl (fun state entry => (BrokerServer.replayEntry now state entry).1)
          server) := by
  induction entries generalizing server answered with
  | nil => exact Restored.refl h
  | cons entry rest ih =>
      obtain ⟨first, behind⟩ := h.replayEntry continues now
      exact first.trans (ih first.stored behind)

/-- The handler of the replay accepts what it can store. -/
theorem BrokerServer.replayEntry_accepts (named : entry.type = 1 → DirectoryName entry.topic)
    (now : Int) (server : BrokerServer)
    : (server.replayEntry now entry).2 = none := by
  unfold BrokerServer.replayEntry
  split
  · next isMessage => rw [(named isMessage).storeMessage]
  · split <;> rfl

/-! Runs with restarts. -/

def BrokerServer.NodeLeads (server : BrokerServer) (topic : GoString) : Prop :=
  match server.raftManager.clusters.lookup topic with
  | none => False
  | some cluster => cluster.raftNode.state = .leader

theorem BrokerServer.NodeLeads.proposeMessage (leads : server.NodeLeads topic)
    (role : server.raftManager.isLeader topic) (now : Int) (messageID : UInt64) (payload : Bytes)
    : ∃ next, server.raftManager.proposeMessage now topic messageID payload = .ok next := by
  rw [RaftManager.proposeMessage_ok_iff]
  unfold BrokerServer.NodeLeads at leads
  unfold RaftManager.isLeader at role
  cases found : server.raftManager.clusters.lookup topic with
  | none =>
      rw [found] at leads
      exact leads.elim
  | some cluster =>
      rw [found] at leads role
      exact ⟨cluster, rfl, eq_of_beq role, leads⟩

/-- A message has a plain topic that can name a directory, fits an entry and takes a number that
does not wrap; where it would be logged, the Raft node accepts it. The log stays below its
rotation size, the Raft nodes apply no message, and a restart happens in a later second than the
last start.
-/
def BrokerServer.LogsAccepted (server : BrokerServer) : Int × BrokerAction → Prop
  | (_, .processMessage request) =>
      DirectoryName request.topic
      ∧ 25 + request.topic.length + request.payload.length < 2 ^ 32
      ∧ server.messageCounter.toNat + 1 < 2 ^ 64
      ∧ (server.wal.content.length : Int) < server.wal.maxFileSize
      ∧ (server.hasTopic request.topic
          → server.raftManager.isLeader request.topic
          → server.NodeLeads request.topic)
  | (_, .removeTopic topic reason) =>
      25 + topic.length + reason.length < 2 ^ 32
      ∧ (server.wal.content.length : Int) < server.wal.maxFileSize
  | (_, .raftRequest topic messageType payload) =>
      server.AppliesNoMessage topic messageType payload
  | (now, .restart) => server.wal.current < (now / 1000000000).toNat
  | (_, .setTopicRole ..) => True
  | (_, .startElection _) => True

instance (server : BrokerServer) (topic : GoString) : Decidable (server.NodeLeads topic) :=
  match found : server.raftManager.clusters.lookup topic with
  | none => .isFalse (by rw [BrokerServer.NodeLeads, found]; exact id)
  | some cluster =>
      decidable_of_iff (cluster.raftNode.state = .leader)
        (by rw [BrokerServer.NodeLeads, found])

instance (server : BrokerServer) : DecidablePred server.LogsAccepted := fun action => by
  rcases action with ⟨_, _ | _⟩ <;> unfold BrokerServer.LogsAccepted <;> infer_instance

/-- The log would restore the answers, with IDs up to the counter. -/
def Logged (wal : WAL) (counter : UInt64) (answered : Answered) : Prop :=
  ∃ entries, LogHolds wal entries
    ∧ Continues 0 entries
    ∧ (∀ messageID ∈ messageIDs entries, messageID ≤ counter)
    ∧ entries.foldl Answered.replay (fun _ => []) = answered

namespace Logged

variable {wal next : WAL} {counter : UInt64} {answered : Answered} (h : Logged wal counter answered)
include h

theorem write (fits : entry.entrySize < 2 ^ 32) {larger : UInt64} (above : counter ≤ larger)
    (message
      : entry.type = 1
        → DirectoryName entry.topic ∧ counter < entry.messageID ∧ entry.messageID ≤ larger)
    (written : wal.write entry = some next)
    : Logged next larger (answered.replay entry) := by
  obtain ⟨entries, holds, continues, counted, restored⟩ := h
  have fresh : ∀ messageID ∈ messageIDs [entry], counter < messageID ∧ messageID ≤ larger := by
    intro messageID member
    by_cases isMessage : entry.type = 1
    · rw [messageIDs_message isMessage] at member
      rw [mem_singleton.mp member]
      exact (message isMessage).2
    · rw [messageIDs_other isMessage] at member
      cases member
  refine ⟨_, holds.write written, { plain := ?_, fits := ?_, increasing := ?_ }, ?_, ?_⟩
  · exact forall_mem_append.mpr
      ⟨continues.plain, forall_mem_singleton.mpr (fun isMessage => (message isMessage).1)⟩
  · exact forall_mem_append.mpr ⟨continues.fits, forall_mem_singleton.mpr fits⟩
  · rw [messageIDs_append, ← cons_append, pairwise_append]
    refine ⟨continues.increasing, ?_, ?_⟩
    · by_cases isMessage : entry.type = 1 <;> simp [messageIDs, isMessage]
    · intro early old late new
      refine UInt64.lt_of_le_of_lt ?_ (fresh late new).1
      rcases mem_cons.mp old with rfl | old
      · exact UInt64.zero_le
      · exact counted early old
  · rw [messageIDs_append]
    exact forall_mem_append.mpr
      ⟨fun messageID old => UInt64.le_trans (counted messageID old) above,
        fun messageID new => (fresh messageID new).2⟩
  · rw [foldl_append, restored]
    rfl

theorem writeMessage (named : DirectoryName topic) {payload : Bytes}
    (fits : 25 + topic.length + payload.length < 2 ^ 32) {messageID : UInt64}
    (above : counter < messageID) {now : Int64}
    (written : wal.writeMessage now topic messageID payload = some next)
    : Logged next messageID
        (Function.update answered topic (answered topic ++ [(messageID, payload)])) := by
  refine h.write ?_ (UInt64.le_of_lt above) (fun _ => ⟨named, above, UInt64.le_refl _⟩) written
  simp only [WALEntry.entrySize]
  omega

theorem writeRemoveTopic {reason : GoString} (fits : 25 + topic.length + reason.length < 2 ^ 32)
    {now : Int64} (written : wal.writeRemoveTopic now topic reason = some next)
    : Logged next counter (Function.update answered topic []) := by
  refine h.write ?_ (UInt64.le_refl _) (fun message => absurd message (by simp)) written
  simp only [WALEntry.entrySize]
  omega

end Logged

/-- The store agrees with the answers, and so does what the log would restore. -/
structure Recoverable (server : BrokerServer) (answered : Answered) : Prop where
  delivered : Delivered server answered
  logged : Logged server.wal server.messageCounter answered

namespace Recoverable

variable {server : BrokerServer} {answered : Answered} {now : Int}

section

variable (h : Recoverable server answered)
include h

theorem processMessage (dataDir : GlobDirectory Nat) {request : MessageRequest}
    (accepted : server.LogsAccepted (now, .processMessage request))
    : Recoverable (server.step dataDir (now, .processMessage request))
        (server.record answered (now, .processMessage request)) := by
  obtain ⟨named, fits, bound, _, leads⟩ := accepted
  have above := Delivered.counter_lt bound
  refine ⟨h.delivered.processMessage dataDir ⟨named.1, by omega, bound⟩, ?_⟩
  simp only [BrokerServer.step, BrokerServer.record]
  rcases server.processMessage_cases now request with
    ⟨response, status, done⟩ | ⟨_, done⟩
    | ⟨wal, written, known, role, refused | ⟨_, _, ⟨_, _, _, unnamed, _⟩ | ⟨_, done⟩⟩⟩
  · simp only [done, status]
    exact h.logged
  · simp only [done]
    exact h.logged
  · -- A node in state leader refuses no proposal.
    obtain ⟨_, failure, _, proposed, _⟩ := refused
    obtain ⟨next, agreed⟩ := BrokerServer.NodeLeads.proposeMessage (leads known role) role now
      (server.messageCounter + 1) request.payload
    rw [agreed] at proposed
    cases proposed
  · rw [FragmentManager.directoryError, named.2] at unnamed
    cases unnamed
  · simp only [done, if_true]
    exact h.logged.writeMessage named fits above written

theorem removeTopic (dataDir : GlobDirectory Nat) {reason : GoString}
    (fits : 25 + topic.length + reason.length < 2 ^ 32)
    : Recoverable (server.step dataDir (now, .removeTopic topic reason))
        (server.record answered (now, .removeTopic topic reason)) := by
  simp only [BrokerServer.step, BrokerServer.record, BrokerServer.removeTopic]
  cases known : server.hasTopic topic with
  | false => exact h
  | true =>
      simp only [Bool.not_true, Bool.false_eq_true, if_false]
      cases written : server.wal.writeRemoveTopic (unix now) topic reason with
      | none => exact h
      | some wal =>
          exact {
            delivered :=
              ⟨h.delivered.stored.closeTopic topic, h.delivered.caughtUp.removeTopic topic⟩
            logged := h.logged.writeRemoveTopic fits written
          }

/-- A start in a later second replays the log onto an empty store. -/
theorem restart {dataDir : GlobDirectory Nat} (literal : hasMeta dataDir.path = false)
    (later : server.wal.current < (now / 1000000000).toNat)
    : Recoverable (server.step dataDir (now, .restart)) answered := by
  obtain ⟨entries, holds, continues, _, rfl⟩ := h.logged
  let fresh := BrokerServer.fresh server.brokerID dataDir.path server.fragmentMgr.disk
    server.wal.files now
  have reopened : LogHolds fresh.wal entries := holds.restart (128 * 1024 * 1024) later
  have restored : Restored fresh entries _ _ := Stored.replay (Stored.new ..) continues now
  rw [← reopened.replay continues.fits
    (fun entry member => BrokerServer.replayEntry_accepts (continues.plain entry member) now)
    literal] at restored
  exact {
    delivered := {
      stored := restored.stored
      caughtUp := by
        rw [BrokerServer.step, BrokerServer.newBrokerServer, restored.raftManager]
        exact RaftManager.CaughtUp.new server.brokerID
    }
    logged := ⟨entries, by
      rw [BrokerServer.step, BrokerServer.newBrokerServer, restored.wal]
      exact reopened, continues, restored.counted, rfl⟩
  }

theorem raftRequest {messageType : RaftMessageType} {payload : Json}
    (quiet : server.AppliesNoMessage topic messageType payload) (now : Int)
    : Recoverable (server.handleRaftRequest now topic messageType payload) answered where
  delivered := h.delivered.handleRaftRequest quiet now
  logged := by
    unfold BrokerServer.handleRaftRequest
    split
    · exact h.logged
    · split <;> exact h.logged

theorem step {dataDir : GlobDirectory Nat} (literal : hasMeta dataDir.path = false)
    {action : Int × BrokerAction} (accepted : server.LogsAccepted action)
    : Recoverable (server.step dataDir action) (server.record answered action) := by
  obtain ⟨now, action⟩ := action
  cases action with
  | setTopicRole topic role followers leaderAddress =>
      exact ⟨⟨h.delivered.stored,
        h.delivered.caughtUp.setTopicRole topic role followers leaderAddress⟩, h.logged⟩
  | processMessage request => exact h.processMessage dataDir accepted
  | removeTopic topic reason => exact h.removeTopic dataDir accepted.1
  | startElection topic =>
      exact ⟨⟨h.delivered.stored, h.delivered.caughtUp.startElection topic⟩, h.logged⟩
  | raftRequest topic messageType payload => exact h.raftRequest accepted now
  | restart => exact h.restart literal accepted

end

/-- A broker that starts without a log. -/
theorem new {dataDir : GlobDirectory Nat} (literal : hasMeta dataDir.path = false)
    (brokerID : GoString) (disk : Disk GoString) (now : Int)
    : Recoverable (.newBrokerServer brokerID dataDir disk [] now) (fun _ => []) := by
  rw [newBrokerServer_empty literal]
  exact {
    delivered := ⟨Stored.new .., RaftManager.CaughtUp.new brokerID⟩
    logged := ⟨[], LogHolds.new _ _,
      { plain := fun _ member => absurd member not_mem_nil
        fits := fun _ member => absurd member not_mem_nil
        increasing := pairwise_singleton _ _ },
      fun _ member => absurd member not_mem_nil, rfl⟩
  }

end Recoverable

/-- Every topic reads as what was answered with success, and the counter has reached every
answered ID.
-/
structure Recovered (server : BrokerServer) (answered : Answered) : Prop where
  reads
    : ∀ topic (limit : Int64), ((answered topic).length : Int) ≤ limit.toInt
      → (server.fragmentMgr.readMessages topic 0 limit).map MessageEntry.pair = answered topic
  counted : ∀ topic, ∀ message ∈ answered topic, message.1 ≤ server.messageCounter

/-- Crash recovery: a run of role changes, messages, removals and restarts in any order, in
which the Raft node accepts every message that is logged, ends in a broker whose topics read
as what was answered with success since their last removal.
-/
theorem recovered_of_logsAccepted {dataDir : GlobDirectory Nat}
    (literal : hasMeta dataDir.path = false) (brokerID : GoString) (disk : Disk GoString)
    (now : Int) {actions : List (Int × BrokerAction)}
    (accepted
      : AllSteps (BrokerServer.step dataDir) BrokerServer.LogsAccepted
          (.newBrokerServer brokerID dataDir disk [] now) actions)
    : Recovered
        (actions.foldl (BrokerServer.step dataDir)
          (.newBrokerServer brokerID dataDir disk [] now))
        (follow (BrokerServer.step dataDir) BrokerServer.record
          (.newBrokerServer brokerID dataDir disk [] now) (fun _ => []) actions) := by
  have recoverable := accepted.simulation
    (fun _ _ _ allowed recoverable => recoverable.step literal allowed)
    (Recoverable.new literal brokerID disk now)
  exact {
    reads := fun topic _ all => recoverable.delivered.stored.readMessages topic all
    counted := recoverable.delivered.stored.counted
  }

def servedThenRestarted : List (Int × BrokerAction) :=
  servedBy [lit "f", lit "g"] ++ [(1000000000, .restart)]

/-- Both messages are read back. -/
theorem recovered_servedThenRestarted
    : AllSteps (BrokerServer.step dataDir) BrokerServer.LogsAccepted started servedThenRestarted
      ∧ ((serving servedThenRestarted).fragmentMgr.readMessages (lit "t") 0 2).map
          MessageEntry.pair
        = [(1, [7]), (2, [8])] := by
  have accepted
      : AllSteps (BrokerServer.step dataDir) BrokerServer.LogsAccepted started
          servedThenRestarted := by
    decide +kernel
  have answered : served servedThenRestarted (lit "t") = [(1, [7]), (2, [8])] := by
    decide +kernel
  have recovered : Recovered (serving servedThenRestarted) (served servedThenRestarted) :=
    @recovered_of_logsAccepted dataDir (by decide +kernel) (lit "b") .empty 0 _ accepted
  refine ⟨accepted, ?_⟩
  rw [recovered.reads (lit "t") 2 (by rw [answered]; decide), answered]

/-- A broker takes the role leader, gets a message before its node is elected, and restarts. -/
def refusedThenRestarted : List (Int × BrokerAction) :=
  [
    (0, .setTopicRole (lit "t") .leader [lit "f"] []),
    (0, .processMessage { topic := lit "t", payload := [7], messageID := 0 }),
    (1000000000, .restart)
  ]

/-- The message was answered with a retry, but it is in the log and the restart stores it. -/
theorem not_recovered_refusedThenRestarted
    : served refusedThenRestarted (lit "t") = []
      ∧ ((serving refusedThenRestarted).fragmentMgr.readMessages (lit "t") 0 1).map
          MessageEntry.pair
        = [(1, [7])]
      ∧ ¬ Recovered (serving refusedThenRestarted) (served refusedThenRestarted) := by
  have answered : served refusedThenRestarted (lit "t") = [] := by decide +kernel
  have read
      : ((serving refusedThenRestarted).fragmentMgr.readMessages (lit "t") 0 1).map
          MessageEntry.pair
        = [(1, [7])] := by
    decide +kernel
  refine ⟨answered, read, fun recovered => ?_⟩
  have empty := recovered.reads (lit "t") 1 (by rw [answered]; decide)
  rw [read, answered] at empty
  cases empty

end Goulette.Broker
