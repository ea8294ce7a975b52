import Xeqm.Cryptonote.Crypto
import Xeqm.Lib.KeyMap
import Xeqm.Lib.Runs

/-!
# Uptime proofs

`handle_uptime_proof` and the records of the proofs it accepts. A replayed proof is kept out only by
two windows of time: the timestamp in a proof must be close to the local clock, and the last proof
of the node must have come in a while ago. The clock counts nanoseconds, a timestamp seconds.
-/

namespace Xeqm.ServiceNodes

open Lib Cryptonote List

/-! ## Proofs and their records -/

/-- The version of a program. -/
abbrev ProgramVersion := UInt16 × UInt16 × UInt16

/-- The order of `std::array<uint16_t, 3>`. -/
def ProgramVersion.less (a b : ProgramVersion) : Bool :=
  a.1 < b.1 ∨ a.1 = b.1 ∧ (a.2.1 < b.2.1 ∨ a.2.1 = b.2.1 ∧ a.2.2 < b.2.2)

/-- `uptime_proof::Proof` as it comes in. -/
structure ReceivedProof where
  version : ProgramVersion := (0, 0, 0)
  storageServerVersion : ProgramVersion := (0, 0, 0)
  sessionRouterVersion : ProgramVersion := (0, 0, 0)
  lokinetVersion : ProgramVersion := (0, 0, 0)
  timestamp : ℕ := 0
  pubkeyEd25519 : PublicKey := 0
  sigEd25519 : Signature := 0
  pubkeyBls : BlsPublicKey := 0
  l2Height : UInt64 := 0
  popBls : Blob 128 := 0
  publicIp : UInt32 := 0
  storageHttpsPort : UInt16 := 0
  storageOmqPort : UInt16 := 0
  qnetPort : UInt16 := 0
  proofHash : Hash := 0
  deriving DecidableEq

namespace ReceivedProof

/-- The fields that `contact_info_changed` compares. -/
def contactInfo (p : ReceivedProof) :=
  (p.version, p.storageServerVersion, p.sessionRouterVersion, p.lokinetVersion, p.pubkeyEd25519,
    p.publicIp, p.storageHttpsPort, p.storageOmqPort, p.qnetPort)

/-- `contact_info_changed`. -/
def contactInfoChanged (p other : ReceivedProof) : Bool := p.contactInfo != other.contactInfo

/-- `proof_tuple`: everything but the hash. -/
def proofTuple (p : ReceivedProof) :=
  (p.timestamp, p.pubkeyEd25519, p.sigEd25519, p.pubkeyBls, p.popBls, p.publicIp,
    p.storageHttpsPort, p.storageOmqPort, p.qnetPort, p.l2Height, p.version,
    p.storageServerVersion, p.sessionRouterVersion, p.lokinetVersion)

end ReceivedProof

variable (conf : ProofConfig) (now : ℕ)

/-- The part of `proof_info` that a proof changes. -/
structure ProofRecord where
  proof : ReceivedProof := {}
  /-- When the last proof came in. -/
  timestamp : ℕ := 0
  effectiveTimestamp : ℕ := 0
  pubkeyX25519 : X25519PublicKey := 0
  publicIps : (UInt32 × ℕ) × (UInt32 × ℕ) := ((0, 0), (0, 0))
  deriving DecidableEq

/-- The two addresses that are kept of a node, after one was used. -/
def updatePublicIps (ips : (UInt32 × ℕ) × (UInt32 × ℕ)) (publicIp : UInt32) (now : ℕ) :
    (UInt32 × ℕ) × (UInt32 × ℕ) :=
  if ips.1.1 ≠ 0 ∧ ips.1.1 = publicIp then ((ips.1.1, now), ips.2)
  else if ips.2.1 ≠ 0 ∧ ips.2.1 = publicIp then (ips.1, (ips.2.1, now))
  else if ips.1.2 > ips.2.2 then (ips.1, (publicIp, now))
  else ((publicIp, now), ips.2)

/-- `proof_info::update`: the new record, whether it differs from the stored one, and whether the
contact data does. -/
def ProofRecord.update (record : ProofRecord) (ts : ℕ) (newProof : ReceivedProof)
    (pkX2 : X25519PublicKey) : ProofRecord × Bool × Bool :=
  let contactChanged := record.proof.contactInfoChanged newProof
  let proofChanged := record.proof.proofTuple != newProof.proofTuple
  let proof := if proofChanged then newProof else record.proof
  ({ proof
     timestamp := ts
     effectiveTimestamp := ts
     pubkeyX25519 := pkX2
     publicIps := updatePublicIps record.publicIps proof.publicIp ts },
    proofChanged || record.timestamp != ts, contactChanged)

/-! ## The checks -/

/-- `proof_version`. -/
structure ProofVersion where
  hardforkRevision : Hf × UInt8
  oxend : ProgramVersion
  lokinet : ProgramVersion
  storageServer : ProgramVersion
  sessionRouter : ProgramVersion

/-- What a network fixes about uptime proofs, with times in seconds. -/
structure ProofConfig where
  uptimeProofTolerance : ℕ
  uptimeProofFrequency : ℕ
  haveStorageServer : Bool
  haveSessionRouter : Bool
  haveLokinet : Bool
  /-- Whether this is the local network of developers. -/
  localdev : Bool
  /-- `MIN_UPTIME_PROOF_VERSIONS`. -/
  minUptimeProofVersions : List ProofVersion

/-- The main network. -/
def mainnetProofConfig : ProofConfig where
  uptimeProofTolerance := 5 * 60
  uptimeProofFrequency := 10 * 60
  haveStorageServer := false
  haveSessionRouter := false
  haveLokinet := false
  localdev := false
  minUptimeProofVersions :=
    [⟨(Hf.hf21WeeklyBatching, 0), (1, 0, 7), (0, 0, 0), (0, 0, 0), (0, 0, 0)⟩,
      ⟨(Hf.hf22SnPolicy, 0), (1, 1, 0), (0, 0, 0), (0, 0, 0), (0, 0, 0)⟩,
      ⟨(Hf.hf22SnPolicy, 1), (1, 1, 1), (0, 0, 0), (0, 0, 0), (0, 0, 0)⟩,
      ⟨(Hf.hf22EthFixup, 0), (11, 4, 0), (0, 9, 13), (2, 10, 0), (0, 0, 0)⟩,
      ⟨(Hf.hf22EthFixup, 1), (11, 5, 0), (0, 9, 14), (2, 11, 0), (0, 0, 0)⟩]

/-- The checks of a proof that the node leaves to others, and its own key. -/
structure ProofChecks where
  crypto : Crypto
  /-- `eth::verify` of a signature, a key and a message. -/
  verifyBls : Blob 128 → BlsPublicKey → List UInt8 → Bool
  /-- `epee::net_utils::is_ip_public`. -/
  isIpPublic : UInt32 → Bool
  debugAllowLocalIps : Bool := false
  /-- The key of the node itself, if it is a service node. -/
  serviceNodeKey : Option PublicKey := none

/-- What is known of the chain when a proof comes in. -/
structure ProofContext where
  /-- `get_network_version_revision` of the top block. -/
  vers : Hf × UInt8
  /-- The BLS keys of the registered nodes. -/
  registered : PublicKey → Option BlsPublicKey

/-- The proof has the versions that the chain asks for. The bound on the session router is compared
with the version of the storage server. -/
def versionsAccepted (vers : Hf × UInt8) (proof : ReceivedProof) : Bool :=
  conf.minUptimeProofVersions.all (fun min =>
    let required := vers.1 > min.hardforkRevision.1 ∨
      vers.1 = min.hardforkRevision.1 ∧ vers.2 ≥ min.hardforkRevision.2
    !required ||
      !proof.version.less min.oxend &&
        !(conf.haveLokinet && proof.lokinetVersion.less min.lokinet) &&
        !(conf.haveStorageServer && proof.storageServerVersion.less min.storageServer) &&
        !(conf.haveSessionRouter && proof.storageServerVersion.less min.sessionRouter))

/-- The keys and signatures of a proof. The BLS key is only asked for at some hard forks. -/
def signaturesAccepted (checks : ProofChecks) (vers : Hf × UInt8) (proof : ReceivedProof) : Bool :=
  checks.crypto.verifyEd25519 proof.sigEd25519 proof.proofHash.bytes proof.pubkeyEd25519 &&
    (!(vers.1 = ethTransition ∨ vers.1 ≥ Hf.hf22EthFixup) ||
      proof.pubkeyBls != 0 && proof.popBls != 0 &&
        checks.verifyBls proof.popBls proof.pubkeyBls
          (proof.pubkeyBls.bytes ++ proof.pubkeyEd25519.bytes))

/-- Nanoseconds in a second. -/
def nanos : ℕ := 1000000000

/-- The timestamp of a proof is as close to the clock as the tolerance asks. -/
def TimestampClose (proof : ReceivedProof) : Prop :=
  now ≤ (proof.timestamp + conf.uptimeProofTolerance) * nanos ∧
    proof.timestamp * nanos ≤ now + conf.uptimeProofTolerance * nanos

/-- Half of the usual time between proofs has not passed since the last one. -/
def ReceivedRecently (record : ProofRecord) : Prop :=
  now ≤ (record.timestamp + conf.uptimeProofFrequency / 2) * nanos

instance (proof : ReceivedProof) : Decidable (TimestampClose conf now proof) :=
  inferInstanceAs (Decidable (_ ∧ _))

instance (record : ProofRecord) : Decidable (ReceivedRecently conf now record) :=
  inferInstanceAs (Decidable (_ ≤ _))

/-! ## Handling a proof -/

/-- The records of the proofs of all nodes. -/
structure ProofStore where
  proofs : KeyMap PublicKey ProofRecord := OrdSet.empty
  /-- `x25519_to_pub`. -/
  x25519ToPub : KeyMap X25519PublicKey (PublicKey × ℕ) := OrdSet.empty
  deriving DecidableEq

/-- The record of a node, an empty one if there was none. -/
def ProofStore.record (store : ProofStore) (key : PublicKey) : ProofRecord :=
  (store.proofs.get? key).getD {}

/-- What follows from an accepted proof. -/
structure HandledProof where
  store : ProofStore
  /-- `my_uptime_proof_confirmation`. -/
  confirmation : Bool
  /-- Whether the record is written to the block database. -/
  updated : Bool
  /-- Whether the listeners hear of a changed address. -/
  contactChanged : Bool
  deriving DecidableEq

/-- `handle_uptime_proof`, where nothing is returned for a proof that is rejected. -/
def handleUptimeProof (checks : ProofChecks) (context : ProofContext) (now : ℕ)
    (proof : ReceivedProof) (store : ProofStore) : Option HandledProof := do
  guard (proof.pubkeyEd25519 ≠ 0)
  guard (TimestampClose conf now proof)
  guard (versionsAccepted conf context.vers proof)
  guard (checks.debugAllowLocalIps || checks.isIpPublic proof.publicIp)
  let derived ← checks.crypto.ed25519ToCurve25519 proof.pubkeyEd25519
  guard (derived ≠ 0)
  guard (signaturesAccepted checks context.vers proof)
  guard (proof.qnetPort ≠ 0)
  let blsPublicKey ← context.registered proof.pubkeyEd25519
  let record := store.record proof.pubkeyEd25519
  -- on the local network of developers, an early proof is welcome until it has brought the BLS key
  guard (¬(ReceivedRecently conf now record ∧
    (conf.localdev = true → blsPublicKey ≠ 0 ∧ proof.qnetPort ≠ 0)))
  let (record, updated, contactChanged) := record.update (now / nanos) proof derived
  some
    { store :=
        { proofs := store.proofs.set proof.pubkeyEd25519 record
          x25519ToPub := store.x25519ToPub.set derived (proof.pubkeyEd25519, now / nanos) }
      confirmation := checks.serviceNodeKey == some proof.pubkeyEd25519
      updated
      contactChanged }

/-! ## Arrivals

The nodes may send what they like, the network may delay and repeat it. Only the clock of the node
is trusted not to go back.
-/

/-- A proof that comes in some time after the one before it. -/
structure Arrival where
  delay : ℕ
  context : ProofContext
  proof : ReceivedProof

/-- The node while proofs come in. The accepted proofs are remembered with their time, the latest
first. -/
structure ProofRun where
  store : ProofStore := {}
  clock : ℕ
  accepted : List (ReceivedProof × ℕ) := []

namespace ProofRun

variable (checks : ProofChecks) (run : ProofRun)

/-- What the node makes of a proof that comes in next. -/
def handle (arrival : Arrival) : Option HandledProof :=
  handleUptimeProof conf checks arrival.context (run.clock + arrival.delay) arrival.proof run.store

/-- The node after one more proof came in. -/
def arrive (arrival : Arrival) : ProofRun :=
  let clock := run.clock + arrival.delay
  match run.handle conf checks arrival with
  | none => { run with clock }
  | some handled => ⟨handled.store, clock, (arrival.proof, clock) :: run.accepted⟩

/-- No proof was accepted that is not newer than all the accepted ones of its node, and no proof
that comes in next will be. -/
def NoReplay : Prop :=
  run.accepted.Pairwise (fun later earlier =>
      later.1.pubkeyEd25519 = earlier.1.pubkeyEd25519 →
        earlier.1.timestamp < later.1.timestamp) ∧
    ∀ arrival, (run.handle conf checks arrival).isSome →
      ∀ earlier ∈ run.accepted, earlier.1.pubkeyEd25519 = arrival.proof.pubkeyEd25519 →
        earlier.1.timestamp < arrival.proof.timestamp

/-- The proof, if it is accepted, has no timestamp that is ahead of the clock. -/
def Timely (arrival : Arrival) : Prop :=
  (run.handle conf checks arrival).isSome →
    arrival.proof.timestamp ≤ (run.clock + arrival.delay) / nanos

end ProofRun

/-! ## One proof -/

section

variable {conf : ProofConfig} {checks : ProofChecks} {context : ProofContext} {now : ℕ}
  {proof : ReceivedProof} {store : ProofStore} {handled : HandledProof}

theorem record_set (key key' : PublicKey) (record : ProofRecord)
    (map : KeyMap X25519PublicKey (PublicKey × ℕ)) :
    ProofStore.record ⟨store.proofs.set key record, map⟩ key' =
      if key' = key then record else store.record key' := by
  unfold ProofStore.record
  rw [KeyMap.get?_set]
  split <;> rfl

/-- What an accepted proof says about the time, and how it changes the records. -/
theorem handleUptimeProof_eq_some
    (h : handleUptimeProof conf checks context now proof store = some handled) :
    TimestampClose conf now proof ∧
      (conf.localdev = false → ¬ReceivedRecently conf now (store.record proof.pubkeyEd25519)) ∧
      (handled.store.record proof.pubkeyEd25519).timestamp = now / nanos ∧
      ∀ key, key ≠ proof.pubkeyEd25519 → handled.store.record key = store.record key := by
  unfold handleUptimeProof at h
  simp only [Option.bind_eq_bind, Option.bind_eq_some_iff, Option.guard_eq_some'] at h
  obtain ⟨-, -, -, hclose, -, -, -, -, derived, -, -, -, -, -, -, -, bls, -, -, hlate, heq⟩ := h
  simp only [Option.some.injEq] at heq
  subst heq
  refine ⟨hclose, fun hnet hrecent => hlate ⟨hrecent, fun hdev => ?_⟩, ?_, fun key hkey => ?_⟩
  · rw [hnet] at hdev
    cases hdev
  · rw [record_set, if_pos rfl]
    rfl
  · rw [record_set, if_neg hkey]

/-- A proof that was accepted once is accepted whenever the time allows it. -/
theorem handleUptimeProof_again {now' : ℕ} {store' : ProofStore}
    (h : (handleUptimeProof conf checks context now proof store).isSome)
    (hclose : TimestampClose conf now' proof)
    (hlate : ¬ReceivedRecently conf now' (store'.record proof.pubkeyEd25519)) :
    (handleUptimeProof conf checks context now' proof store').isSome := by
  obtain ⟨handled, h⟩ := Option.isSome_iff_exists.mp h
  unfold handleUptimeProof at h ⊢
  simp only [Option.bind_eq_bind, Option.bind_eq_some_iff, Option.guard_eq_some'] at h
  obtain ⟨-, hkey, -, -, -, hversions, -, hip, derived, hderived, -, hne, -, hsig, -, hport,
    bls, hregistered, -, -, -⟩ := h
  simp only [guard, hkey, hversions, hip, hderived, hne, hsig, hport, hregistered, hclose, hlate,
    false_and, not_false_eq_true, if_true, Option.bind_eq_bind, Option.pure_def,
    Option.bind_some, Option.isSome_some, ne_eq]

end

/-! ## Runs on the main network -/

namespace ProofRun

variable {checks : ProofChecks} {run : ProofRun} {arrival : Arrival}

/-- On the main network the two windows meet: a proof is only accepted if its timestamp is later
than the time at which the last one came in. -/
theorem record_lt_of_handle (h : (run.handle mainnetProofConfig checks arrival).isSome) :
    (run.store.record arrival.proof.pubkeyEd25519).timestamp < arrival.proof.timestamp := by
  obtain ⟨handled, h⟩ := Option.isSome_iff_exists.mp h
  obtain ⟨hclose, hlate, -⟩ := handleUptimeProof_eq_some h
  have hgap := not_le.mp (hlate rfl)
  have hwindow := Nat.lt_of_mul_lt_mul_right (lt_of_lt_of_le hgap hclose.1)
  exact Nat.lt_of_add_lt_add_right hwindow

/-- The time of acceptance is recorded, and it is later than the one recorded before. -/
theorem record_of_handle {handled : HandledProof}
    (h : run.handle mainnetProofConfig checks arrival = some handled) :
    (handled.store.record arrival.proof.pubkeyEd25519).timestamp =
        (run.clock + arrival.delay) / nanos ∧
      ∀ key, (run.store.record key).timestamp ≤ (handled.store.record key).timestamp := by
  obtain ⟨-, hlate, hrecord, hother⟩ := handleUptimeProof_eq_some h
  refine ⟨hrecord, fun key => ?_⟩
  by_cases hkey : key = arrival.proof.pubkeyEd25519
  · rw [hkey, hrecord]
    have hgap := not_le.mp (hlate rfl)
    rw [Nat.le_div_iff_mul_le (by decide)]
    exact le_trans (Nat.mul_le_mul_right _ (Nat.le_add_right _ _)) hgap.le
  · rw [hother key hkey]

/-- What holds as long as no accepted proof is ahead of the clock: the time at which the last proof
of a node came in bounds the timestamps of all of them. -/
structure Bounded (run : ProofRun) : Prop where
  newer : run.accepted.Pairwise (fun later earlier =>
    later.1.pubkeyEd25519 = earlier.1.pubkeyEd25519 → earlier.1.timestamp < later.1.timestamp)
  le_record : ∀ earlier ∈ run.accepted,
    earlier.1.timestamp ≤ (run.store.record earlier.1.pubkeyEd25519).timestamp

/-- An accepted proof is newer than the ones before it. -/
theorem Bounded.lt_of_handle (hrun : run.Bounded)
    (h : (run.handle mainnetProofConfig checks arrival).isSome) :
    ∀ earlier ∈ run.accepted, earlier.1.pubkeyEd25519 = arrival.proof.pubkeyEd25519 →
      earlier.1.timestamp < arrival.proof.timestamp := by
  intro earlier hearlier hkey
  have hle := hrun.le_record earlier hearlier
  rw [hkey] at hle
  exact lt_of_le_of_lt hle (record_lt_of_handle h)

theorem bounded_start {store : ProofStore} {clock : ℕ} : Bounded ⟨store, clock, []⟩ :=
  ⟨.nil, fun _ h => absurd h not_mem_nil⟩

theorem Bounded.noReplay (hrun : run.Bounded) : run.NoReplay mainnetProofConfig checks :=
  ⟨hrun.newer, fun _ h => hrun.lt_of_handle h⟩

/-- A timely proof keeps the bound. -/
theorem Bounded.arrive (hrun : run.Bounded)
    (htimely : run.Timely mainnetProofConfig checks arrival) :
    (run.arrive mainnetProofConfig checks arrival).Bounded := by
  unfold ProofRun.arrive
  cases h : run.handle mainnetProofConfig checks arrival with
  | none => exact ⟨hrun.newer, hrun.le_record⟩
  | some =>
    have hsome : (run.handle mainnetProofConfig checks arrival).isSome := by rw [h]; rfl
    obtain ⟨hrecord, hgrows⟩ := record_of_handle h
    constructor
    · refine pairwise_cons.mpr ⟨fun earlier hearlier hkey => ?_, hrun.newer⟩
      exact hrun.lt_of_handle hsome earlier hearlier hkey.symm
    · intro earlier hearlier
      obtain rfl | hearlier := mem_cons.mp hearlier
      · dsimp only
        rw [hrecord]
        exact htimely hsome
      · exact le_trans (hrun.le_record earlier hearlier) (hgrows _)

/-- A proof that is ahead of the clock is accepted a second time, as late as its own timestamp
allows. -/
theorem accepts_again (h : ¬run.Timely mainnetProofConfig checks arrival) :
    ¬(run.arrive mainnetProofConfig checks arrival).NoReplay mainnetProofConfig checks := by
  unfold Timely at h
  push Not at h
  obtain ⟨hsome, hahead⟩ := h
  obtain ⟨handled, hhandle⟩ := Option.isSome_iff_exists.mp hsome
  obtain ⟨hclose, -, hrecord, -⟩ := handleUptimeProof_eq_some hhandle
  let replay : Arrival :=
    { arrival with
      delay := (arrival.proof.timestamp + mainnetProofConfig.uptimeProofTolerance) * nanos -
        (run.clock + arrival.delay) }
  have hclock : run.clock + arrival.delay + replay.delay =
      (arrival.proof.timestamp + mainnetProofConfig.uptimeProofTolerance) * nanos :=
    Nat.add_sub_cancel' hclose.1
  have hnext : run.arrive mainnetProofConfig checks arrival =
      ⟨handled.store, run.clock + arrival.delay,
        (arrival.proof, run.clock + arrival.delay) :: run.accepted⟩ := by
    unfold ProofRun.arrive
    rw [hhandle]
  rw [hnext]
  rintro ⟨-, hnewer⟩
  have hagain : (ProofRun.handle mainnetProofConfig checks
      ⟨handled.store, run.clock + arrival.delay,
        (arrival.proof, run.clock + arrival.delay) :: run.accepted⟩ replay).isSome := by
    unfold ProofRun.handle
    rw [hclock]
    refine handleUptimeProof_again hsome ⟨le_refl _, ?_⟩ ?_
    · exact le_trans (Nat.mul_le_mul_right _ (Nat.le_add_right _ _)) (Nat.le_add_right _ _)
    · unfold ReceivedRecently
      rw [hrecord, not_le]
      exact Nat.mul_lt_mul_of_pos_right (Nat.add_lt_add_right hahead _) (by decide)
  exact lt_irrefl _ (hnewer replay hagain _ mem_cons_self rfl)

/-- On the main network, replays are kept out all the time exactly if no proof is ever accepted with
a timestamp that is ahead of the local clock. -/
theorem noReplay_iff_timely (checks : ProofChecks) (store : ProofStore) (clock : ℕ)
    (arrivals : List Arrival) :
    (∀ n, NoReplay mainnetProofConfig checks
        ((arrivals.take n).foldl (arrive mainnetProofConfig checks) ⟨store, clock, []⟩)) ↔
      AllAlong (arrive mainnetProofConfig checks) (Timely mainnetProofConfig checks)
        ⟨store, clock, []⟩ arrivals := by
  refine forall_take_iff (fun run hrun => hrun.noReplay) ?_ ?_ bounded_start arrivals
  · intro run arrival hrun htimely
    exact hrun.arrive htimely
  · intro run arrival _ hahead
    exact accepts_again hahead

end ProofRun

/-- Checks that let every proof pass. -/
def acceptingProofChecks : ProofChecks where
  crypto := acceptingCrypto
  verifyBls := fun _ _ _ => true
  isIpPublic := fun _ => true

/-- The main network at its last hard fork, with every node registered. -/
def everyNodeRegistered : ProofContext where
  vers := (Hf.hf22SnPolicy, 1)
  registered := fun _ => some 0

/-- A proof of one node, with a time and an address. -/
def sampleProof (timestamp : ℕ) (publicIp : UInt32) : ReceivedProof where
  version := (1, 1, 1)
  timestamp
  pubkeyEd25519 := 1
  publicIp
  qnetPort := 22025

/-- A sender whose clock is five minutes ahead. Its proof is accepted again after five minutes and a
second, or else one that it had sent before takes its place. -/
theorem ahead_proof_accepted_twice :
    let start : ProofRun := { clock := 1700000000 * nanos }
    let ahead : Arrival := ⟨0, everyNodeRegistered, sampleProof 1700000300 1⟩
    let again : Arrival := { ahead with delay := 301 * nanos }
    let older : Arrival := { again with proof := sampleProof 1700000001 2 }
    let arrive := ProofRun.arrive mainnetProofConfig acceptingProofChecks
    (arrive (arrive start ahead) again).accepted =
        [(ahead.proof, 1700000301 * nanos), (ahead.proof, 1700000000 * nanos)] ∧
      (arrive (arrive start ahead) older).accepted =
        [(older.proof, 1700000301 * nanos), (ahead.proof, 1700000000 * nanos)] ∧
      ((arrive (arrive start ahead) older).store.record 1).proof = older.proof := by
  decide +kernel

end Xeqm.ServiceNodes
