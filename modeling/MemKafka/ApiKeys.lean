import Mathlib

/-!
# API keys (`crates/kafka-protocol/src/messages.rs`)

The generated enumeration of the protocol's APIs, with the versions and the header versions of their messages.
-/

namespace MemKafka

/-- An inclusive range of versions: `VersionRange`, and `VersionWindow` in `kafka/capabilities.rs`. -/
structure VersionRange where
  min : Int
  max : Int
deriving DecidableEq, Repr

def VersionRange.contains (range : VersionRange) (version : Int) : Bool := range.min ≤ version && version ≤ range.max

inductive ApiKey where
  | produce | fetch | listOffsets | metadata | offsetCommit | offsetFetch | findCoordinator | joinGroup | heartbeat
  | leaveGroup | syncGroup | describeGroups | listGroups | saslHandshake | apiVersions | createTopics | deleteTopics
  | deleteRecords | initProducerId | offsetForLeaderEpoch | addPartitionsToTxn | addOffsetsToTxn | endTxn
  | writeTxnMarkers | txnOffsetCommit | describeAcls | createAcls | deleteAcls | describeConfigs | alterConfigs
  | alterReplicaLogDirs | describeLogDirs | saslAuthenticate | createPartitions | createDelegationToken
  | renewDelegationToken | expireDelegationToken | describeDelegationToken | deleteGroups | electLeaders
  | incrementalAlterConfigs | alterPartitionReassignments | listPartitionReassignments | offsetDelete
  | describeClientQuotas | alterClientQuotas | describeUserScramCredentials | alterUserScramCredentials | vote
  | beginQuorumEpoch | endQuorumEpoch | describeQuorum | alterPartition | updateFeatures | envelope | fetchSnapshot
  | describeCluster | describeProducers | brokerRegistration | brokerHeartbeat | unregisterBroker
  | describeTransactions | listTransactions | allocateProducerIds | consumerGroupHeartbeat | consumerGroupDescribe
  | controllerRegistration | getTelemetrySubscriptions | pushTelemetry | assignReplicasToDirs | listConfigResources
  | describeTopicPartitions | shareGroupHeartbeat | shareGroupDescribe | shareFetch | shareAcknowledge | addRaftVoter
  | removeRaftVoter | updateRaftVoter | initializeShareGroupState | readShareGroupState | writeShareGroupState
  | deleteShareGroupState | readShareGroupStateSummary | streamsGroupHeartbeat | streamsGroupDescribe
  | describeShareGroupOffsets | alterShareGroupOffsets | deleteShareGroupOffsets
deriving DecidableEq, Repr

namespace ApiKey

/-- The discriminants. -/
def code : ApiKey → Int
  | .produce => 0 | .fetch => 1 | .listOffsets => 2 | .metadata => 3 | .offsetCommit => 8 | .offsetFetch => 9
  | .findCoordinator => 10 | .joinGroup => 11 | .heartbeat => 12 | .leaveGroup => 13 | .syncGroup => 14
  | .describeGroups => 15 | .listGroups => 16 | .saslHandshake => 17 | .apiVersions => 18 | .createTopics => 19
  | .deleteTopics => 20 | .deleteRecords => 21 | .initProducerId => 22 | .offsetForLeaderEpoch => 23
  | .addPartitionsToTxn => 24 | .addOffsetsToTxn => 25 | .endTxn => 26 | .writeTxnMarkers => 27
  | .txnOffsetCommit => 28 | .describeAcls => 29 | .createAcls => 30 | .deleteAcls => 31 | .describeConfigs => 32
  | .alterConfigs => 33 | .alterReplicaLogDirs => 34 | .describeLogDirs => 35 | .saslAuthenticate => 36
  | .createPartitions => 37 | .createDelegationToken => 38 | .renewDelegationToken => 39
  | .expireDelegationToken => 40 | .describeDelegationToken => 41 | .deleteGroups => 42 | .electLeaders => 43
  | .incrementalAlterConfigs => 44 | .alterPartitionReassignments => 45 | .listPartitionReassignments => 46
  | .offsetDelete => 47 | .describeClientQuotas => 48 | .alterClientQuotas => 49 | .describeUserScramCredentials => 50
  | .alterUserScramCredentials => 51 | .vote => 52 | .beginQuorumEpoch => 53 | .endQuorumEpoch => 54
  | .describeQuorum => 55 | .alterPartition => 56 | .updateFeatures => 57 | .envelope => 58 | .fetchSnapshot => 59
  | .describeCluster => 60 | .describeProducers => 61 | .brokerRegistration => 62 | .brokerHeartbeat => 63
  | .unregisterBroker => 64 | .describeTransactions => 65 | .listTransactions => 66 | .allocateProducerIds => 67
  | .consumerGroupHeartbeat => 68 | .consumerGroupDescribe => 69 | .controllerRegistration => 70
  | .getTelemetrySubscriptions => 71 | .pushTelemetry => 72 | .assignReplicasToDirs => 73 | .listConfigResources => 74
  | .describeTopicPartitions => 75 | .shareGroupHeartbeat => 76 | .shareGroupDescribe => 77 | .shareFetch => 78
  | .shareAcknowledge => 79 | .addRaftVoter => 80 | .removeRaftVoter => 81 | .updateRaftVoter => 82
  | .initializeShareGroupState => 83 | .readShareGroupState => 84 | .writeShareGroupState => 85
  | .deleteShareGroupState => 86 | .readShareGroupStateSummary => 87 | .streamsGroupHeartbeat => 88
  | .streamsGroupDescribe => 89 | .describeShareGroupOffsets => 90 | .alterShareGroupOffsets => 91
  | .deleteShareGroupOffsets => 92

/-- The variants, in the order of the enumeration. -/
def all : List ApiKey :=
  [.produce, .fetch, .listOffsets, .metadata, .offsetCommit, .offsetFetch, .findCoordinator, .joinGroup, .heartbeat,
   .leaveGroup, .syncGroup, .describeGroups, .listGroups, .saslHandshake, .apiVersions, .createTopics, .deleteTopics,
   .deleteRecords, .initProducerId, .offsetForLeaderEpoch, .addPartitionsToTxn, .addOffsetsToTxn, .endTxn,
   .writeTxnMarkers, .txnOffsetCommit, .describeAcls, .createAcls, .deleteAcls, .describeConfigs, .alterConfigs,
   .alterReplicaLogDirs, .describeLogDirs, .saslAuthenticate, .createPartitions, .createDelegationToken,
   .renewDelegationToken, .expireDelegationToken, .describeDelegationToken, .deleteGroups, .electLeaders,
   .incrementalAlterConfigs, .alterPartitionReassignments, .listPartitionReassignments, .offsetDelete,
   .describeClientQuotas, .alterClientQuotas, .describeUserScramCredentials, .alterUserScramCredentials, .vote,
   .beginQuorumEpoch, .endQuorumEpoch, .describeQuorum, .alterPartition, .updateFeatures, .envelope, .fetchSnapshot,
   .describeCluster, .describeProducers, .brokerRegistration, .brokerHeartbeat, .unregisterBroker,
   .describeTransactions, .listTransactions, .allocateProducerIds, .consumerGroupHeartbeat, .consumerGroupDescribe,
   .controllerRegistration, .getTelemetrySubscriptions, .pushTelemetry, .assignReplicasToDirs, .listConfigResources,
   .describeTopicPartitions, .shareGroupHeartbeat, .shareGroupDescribe, .shareFetch, .shareAcknowledge, .addRaftVoter,
   .removeRaftVoter, .updateRaftVoter, .initializeShareGroupState, .readShareGroupState, .writeShareGroupState,
   .deleteShareGroupState, .readShareGroupStateSummary, .streamsGroupHeartbeat, .streamsGroupDescribe,
   .describeShareGroupOffsets, .alterShareGroupOffsets, .deleteShareGroupOffsets]

def validVersions : ApiKey → VersionRange
  | .listPartitionReassignments | .offsetDelete | .describeUserScramCredentials | .alterUserScramCredentials
  | .envelope | .describeProducers | .unregisterBroker | .describeTransactions | .allocateProducerIds
  | .controllerRegistration | .getTelemetrySubscriptions | .pushTelemetry | .assignReplicasToDirs
  | .describeTopicPartitions | .removeRaftVoter | .updateRaftVoter | .initializeShareGroupState | .readShareGroupState
  | .deleteShareGroupState | .streamsGroupHeartbeat | .streamsGroupDescribe | .alterShareGroupOffsets
  | .deleteShareGroupOffsets => ⟨0, 0⟩
  | .saslHandshake | .incrementalAlterConfigs | .alterPartitionReassignments | .describeClientQuotas
  | .alterClientQuotas | .beginQuorumEpoch | .endQuorumEpoch | .fetchSnapshot | .consumerGroupHeartbeat
  | .consumerGroupDescribe | .listConfigResources | .addRaftVoter | .writeShareGroupState
  | .readShareGroupStateSummary | .describeShareGroupOffsets => ⟨0, 1⟩
  | .deleteRecords | .alterConfigs | .saslAuthenticate | .deleteGroups | .electLeaders | .vote | .describeQuorum
  | .updateFeatures | .describeCluster | .brokerHeartbeat | .listTransactions => ⟨0, 2⟩
  | .createPartitions => ⟨0, 3⟩
  | .heartbeat | .apiVersions | .addOffsetsToTxn | .brokerRegistration => ⟨0, 4⟩
  | .leaveGroup | .syncGroup | .listGroups | .addPartitionsToTxn | .endTxn | .txnOffsetCommit => ⟨0, 5⟩
  | .findCoordinator | .describeGroups | .initProducerId => ⟨0, 6⟩
  | .joinGroup => ⟨0, 9⟩
  | .metadata => ⟨0, 13⟩
  | .shareGroupHeartbeat | .shareGroupDescribe => ⟨1, 1⟩
  | .writeTxnMarkers | .alterReplicaLogDirs | .renewDelegationToken | .expireDelegationToken | .shareFetch
  | .shareAcknowledge => ⟨1, 2⟩
  | .describeAcls | .createAcls | .deleteAcls | .createDelegationToken | .describeDelegationToken => ⟨1, 3⟩
  | .describeConfigs => ⟨1, 4⟩
  | .describeLogDirs => ⟨1, 5⟩
  | .deleteTopics => ⟨1, 6⟩
  | .offsetFetch => ⟨1, 10⟩
  | .listOffsets => ⟨1, 11⟩
  | .alterPartition => ⟨2, 3⟩
  | .offsetForLeaderEpoch => ⟨2, 4⟩
  | .createTopics => ⟨2, 7⟩
  | .offsetCommit => ⟨2, 10⟩
  | .produce => ⟨3, 13⟩
  | .fetch => ⟨4, 18⟩

/-- The version from which the headers have tagged fields. -/
def flexibleFrom : ApiKey → Option Int
  | .writeTxnMarkers | .alterPartitionReassignments | .listPartitionReassignments | .describeUserScramCredentials
  | .alterUserScramCredentials | .vote | .describeQuorum | .alterPartition | .updateFeatures | .envelope
  | .fetchSnapshot | .describeCluster | .describeProducers | .brokerRegistration | .brokerHeartbeat
  | .unregisterBroker | .describeTransactions | .listTransactions | .allocateProducerIds | .consumerGroupHeartbeat
  | .consumerGroupDescribe | .controllerRegistration | .getTelemetrySubscriptions | .pushTelemetry
  | .assignReplicasToDirs | .listConfigResources | .describeTopicPartitions | .shareGroupHeartbeat
  | .shareGroupDescribe | .shareFetch | .shareAcknowledge | .addRaftVoter | .removeRaftVoter | .updateRaftVoter
  | .initializeShareGroupState | .readShareGroupState | .writeShareGroupState | .deleteShareGroupState
  | .readShareGroupStateSummary | .streamsGroupHeartbeat | .streamsGroupDescribe | .describeShareGroupOffsets
  | .alterShareGroupOffsets | .deleteShareGroupOffsets => some 0
  | .incrementalAlterConfigs | .describeClientQuotas | .alterClientQuotas | .beginQuorumEpoch
  | .endQuorumEpoch => some 1
  | .deleteRecords | .initProducerId | .describeAcls | .createAcls | .deleteAcls | .alterConfigs
  | .alterReplicaLogDirs | .describeLogDirs | .saslAuthenticate | .createPartitions | .createDelegationToken
  | .renewDelegationToken | .expireDelegationToken | .describeDelegationToken | .deleteGroups
  | .electLeaders => some 2
  | .findCoordinator | .listGroups | .apiVersions | .addPartitionsToTxn | .addOffsetsToTxn | .endTxn
  | .txnOffsetCommit => some 3
  | .heartbeat | .leaveGroup | .syncGroup | .deleteTopics | .offsetForLeaderEpoch | .describeConfigs => some 4
  | .describeGroups | .createTopics => some 5
  | .listOffsets | .offsetFetch | .joinGroup => some 6
  | .offsetCommit => some 8
  | .produce | .metadata => some 9
  | .fetch => some 12
  | .saslHandshake | .offsetDelete => none

def tryFrom (v : Int) : Option ApiKey := all.find? (·.code = v)

/-- `header_version` of the request's message. -/
def requestHeaderVersion (key : ApiKey) (version : Int) : Int := if key.flexibleFrom.any (· ≤ version) then 2 else 1

/-- `header_version` of the response's message, which is always 0 for `ApiVersionsResponse`. -/
def responseHeaderVersion (key : ApiKey) (version : Int) : Int :=
  if key ≠ .apiVersions ∧ key.flexibleFrom.any (· ≤ version) then 1 else 0

theorem code_of_tryFrom {v : Int} {key : ApiKey} (h : tryFrom v = some key) : key.code = v := by
  simpa using List.find?_some h

theorem tryFrom_code (key : ApiKey) : tryFrom key.code = some key := by
  cases key <;> rfl

theorem code_injective : Function.Injective code := fun key key' h =>
  Option.some.inj ((tryFrom_code key).symm.trans ((congrArg tryFrom h).trans (tryFrom_code key')))

end ApiKey

end MemKafka
