import Xeqm.ServiceNodes.Frames

/-!
# Two ways to the pulse quorum

To verify a block its pulse quorum is generated from the nodes that are active in the
state before it, and with the entropy of the blocks below. `update_from_block` draws
the same quorum again from the candidates of its walk over the list, on the main chain
with the entropy in the window of the feeder. The quorums are the same.
-/

namespace Xeqm.ServiceNodes

open Cryptonote Lib Tools List

/-! ## The candidates -/

/-- The rank of a candidate tells its key. -/
theorem key_eq_of_pulseSortRank_eq {a b : NodeEntry} (h : pulseSortRank a = pulseSortRank b) :
    a.1 = b.1 := by
  unfold pulseSortRank at h
  have ha := a.1.isLt
  have hb := b.1.isLt
  apply BitVec.eq_of_toNat_eq
  omega

section

variable {nodes : List NodeEntry}

section

variable (hunique : (nodes.map Prod.fst).Nodup)

include hunique

/-- Nodes with different keys are sorted in one way only. -/
theorem sortPulseCandidates_eq {sorted : List NodeEntry} (hperm : sorted.Perm nodes)
    (hsorted : sorted.Pairwise (fun a b => pulseSortRank a ≤ pulseSortRank b)) :
    sorted = sortPulseCandidates nodes := by
  have hperm' : (sortPulseCandidates nodes).Perm nodes := perm_insertionSort _ _
  have hsorted' : (sortPulseCandidates nodes).Pairwise
      (fun a b => pulseSortRank a ≤ pulseSortRank b) :=
    pairwise_insertionSort (r := fun a b => pulseSortRank a ≤ pulseSortRank b) nodes
  apply Perm.eq_of_pairwise _ hsorted hsorted' (hperm.trans hperm'.symm)
  intro a b ha hb hab hba
  have hkey := key_eq_of_pulseSortRank_eq (le_antisymm hab hba)
  exact inj_on_of_nodup_map hunique (hperm.subset ha) (hperm'.subset hb) hkey

/-- Among different keys, removing the first match removes all of them. -/
theorem eraseP_key_eq_filter (key : PublicKey) :
    nodes.eraseP (fun node => node.1 = key) = nodes.filter (fun node => node.1 ≠ key) := by
  induction nodes with
  | nil => rfl
  | cons node rest ih =>
    rw [map_cons, nodup_cons] at hunique
    by_cases hkey : node.1 = key
    · have hrest : rest.filter (fun other => other.1 ≠ key) = rest := by
        apply filter_eq_self.mpr
        intro other hother
        apply decide_eq_true
        intro heq
        apply hunique.1
        rw [hkey, ← heq]
        exact mem_map_of_mem hother
      rw [eraseP_cons_of_pos (by simp [hkey]), filter_cons_of_neg (by simp [hkey]), hrest]
    · rw [eraseP_cons_of_neg (by simp [hkey]), filter_cons_of_pos (by simp [hkey]), ih hunique.2]

/-- The leader may be taken out before or after the nodes are sorted. -/
theorem pulseCandidates_eq (hfVersion : Hf) (pulseRound : UInt8) (leader : PublicKey) :
    pulseCandidates hfVersion pulseRound leader nodes =
      let sorted := sortPulseCandidates
        (nodes.filter (fun node => node.1 ≠ leader ∨ pulseRound > 0))
      if hfVersion ≥ Hf.hf22SnPolicy then dedupOperators [] sorted else sorted := by
  have hothers : (if pulseRound = 0 then
        (sortPulseCandidates nodes).eraseP fun node => node.1 = leader
      else sortPulseCandidates nodes) =
      sortPulseCandidates (nodes.filter (fun node => node.1 ≠ leader ∨ pulseRound > 0)) := by
    by_cases hround : pulseRound = 0
    · have hperm : (sortPulseCandidates nodes).Perm nodes := perm_insertionSort _ _
      have hunique' : ((sortPulseCandidates nodes).map Prod.fst).Nodup :=
        (hperm.map Prod.fst).nodup_iff.mpr hunique
      have hfilter : nodes.filter (fun node => node.1 ≠ leader ∨ pulseRound > 0) =
          nodes.filter (fun node => node.1 ≠ leader) := by
        simp [hround]
      rw [if_pos hround, eraseP_key_eq_filter hunique', hfilter]
      apply sortPulseCandidates_eq
      · exact hunique.sublist (filter_sublist.map _)
      · exact hperm.filter _
      · exact (pairwise_insertionSort
          (r := fun a b => pulseSortRank a ≤ pulseSortRank b) nodes).filter _
    · have hpos : pulseRound > 0 := UInt8.pos_iff_ne_zero.mpr hround
      simp [hround, hpos]
  simp only [pulseCandidates, hothers]

end

end

/-! ## The entropy -/

/-- The blocks there are, by their hash. -/
structure BlockTree where
  find : Hash → Option Block
  hash_eq : ∀ {hash block}, find hash = some block → block.hash = hash
  height_eq : ∀ {hash block parent}, find hash = some block → find block.prevId = some parent →
    block.height = parent.height + 1
  null_eq : find 0 = none

/-- So many blocks down from a hash, lowest one first. -/
def ancestry (find : Hash → Option Block) : ℕ → Hash → Option (List Block)
  | 0, _ => some []
  | n + 1, hash =>
    match find hash with
    | none => none
    | some block => (ancestry find n block.prevId).map (fun below => below ++ [block])

variable {blocks : List Block}

section

variable {find : Hash → Option Block} {crypto : Crypto} {hash : Hash}

theorem ancestry_of_some {block : Block} (h : find hash = some block) (n : ℕ) :
    ancestry find (n + 1) hash =
      (ancestry find n block.prevId).map (fun below => below ++ [block]) := by
  rw [ancestry, h]

theorem ancestry_of_none (h : find hash = none) (n : ℕ) : ancestry find (n + 1) hash = none := by
  rw [ancestry, h]

variable {n : ℕ}

theorem ancestry_succ (h : ancestry find (n + 1) hash = some blocks) :
    ∃ block below, find hash = some block ∧ ancestry find n block.prevId = some below ∧
      blocks = below ++ [block] := by
  cases hblock : find hash with
  | none =>
    rw [ancestry_of_none hblock] at h
    cases h
  | some block =>
    rw [ancestry_of_some hblock] at h
    obtain ⟨below, hbelow, rfl⟩ := Option.map_eq_some_iff.mp h
    exact ⟨block, below, rfl, hbelow, rfl⟩

theorem ancestry_length (h : ancestry find n hash = some blocks) : blocks.length = n := by
  induction n generalizing hash blocks with
  | zero =>
    cases h
    rfl
  | succ _ ih =>
    obtain ⟨block, below, _, hbelow, rfl⟩ := ancestry_succ h
    rw [length_append, ih hbelow, length_singleton]

/-- Without the lowest block the walk is one block shorter. -/
theorem ancestry_drop (h : ancestry find (n + 1) hash = some blocks) :
    ancestry find n hash = some (blocks.drop 1) := by
  induction n generalizing hash blocks with
  | zero =>
    obtain ⟨block, below, _, hbelow, rfl⟩ := ancestry_succ h
    cases hbelow
    rfl
  | succ n ih =>
    obtain ⟨block, below, hblock, hbelow, rfl⟩ := ancestry_succ h
    have hlength := ancestry_length hbelow
    rw [ancestry_of_some hblock, ih hbelow, Option.map_some, drop_append_of_le_length (by omega)]

/-- The window of the feeder is seeded with the entropy of the walk. -/
theorem seedWindow_eq {db : ChainDb} {pulseRound : UInt8} (n : ℕ) (hash : Hash)
    (window : List Hash) :
    seedWindow crypto db pulseRound n hash window =
      (ancestry db.findBlock n hash).map
        (fun blocks => blocks.map (pulseEntropyFromBlock crypto pulseRound) ++ window) := by
  induction n generalizing hash window with
  | zero => rfl
  | succ _ ih =>
    cases hblock : db.findBlock hash with
    | none => simp only [seedWindow, hblock, ancestry_of_none hblock, Option.map_none]
    | some =>
      simp only [seedWindow, hblock, ih, ancestry_of_some hblock, Option.map_map]
      congr 1
      funext below
      simp

/-- The walk for the next block keeps the lowest blocks. -/
theorem pulseEntropyBlocks_eq {db : ChainDb} (n : ℕ) (hash : Hash) (blocks : List Block) :
    pulseEntropyBlocks db n hash blocks =
      (ancestry db.findBlock n hash).map (fun found => found.take pulseQuorumSize ++ blocks) := by
  induction n generalizing hash blocks with
  | zero => rfl
  | succ n ih =>
    cases hblock : db.findBlock hash with
    | none => simp only [pulseEntropyBlocks, hblock, ancestry_of_none hblock, Option.map_none]
    | some block =>
      simp only [pulseEntropyBlocks, hblock, ih, ancestry_of_some hblock]
      cases hbelow : ancestry db.findBlock n block.prevId with
      | none => rfl
      | some below =>
        have hlength := ancestry_length hbelow
        simp only [Option.map_some, Option.some.injEq]
        split
        · rw [take_of_length_le (by omega), take_of_length_le (by simp; omega)]
          simp
        · rw [take_append_of_le_length (by omega)]

/-- A walk of some length starts that high. -/
theorem BlockTree.ancestry_height (tree : BlockTree) {block : Block}
    (hblock : tree.find hash = some block) (h : ancestry tree.find n block.prevId = some blocks) :
    n ≤ block.height := by
  induction n generalizing hash block blocks with
  | zero => exact Nat.zero_le _
  | succ n ih =>
    obtain ⟨parent, below, hparent, hbelow, _⟩ := ancestry_succ h
    have hheight := tree.height_eq hblock hparent
    have := ih hparent hbelow
    omega

end

/-- A database holds blocks of a tree: a block, and as many below it as its entropy
needs, as far as there are any. -/
structure HoldsBranch (tree : BlockTree) (db : ChainDb) (block : Block) : Prop where
  sub : ∀ {hash found}, db.findBlock hash = some found → tree.find hash = some found
  found : db.findBlock block.hash = some block
  walk : ancestry db.findBlock (pulseQuorumEntropyLag + 2) block.hash =
    ancestry tree.find (pulseQuorumEntropyLag + 2) block.hash

section

variable {tree : BlockTree} {db : ChainDb} {crypto : Crypto} {block : Block}

/-- The entropy for a block comes from the walk that ends at it. -/
theorem getPulseEntropyForNextBlock_eq (h : HoldsBranch tree db block) :
    getPulseEntropyForNextBlock crypto db block.prevId block.pulse.round =
      ((ancestry tree.find (pulseQuorumEntropyLag + 2) block.hash).map (fun blocks =>
        (blocks.take pulseQuorumSize).map (pulseEntropyFromBlock crypto block.pulse.round))).getD
          [] := by
  rw [getPulseEntropyForNextBlock, ← h.walk, ancestry_of_some h.found]
  cases htop : db.findBlock block.prevId with
  | none =>
    rw [ancestry_of_none htop]
    rfl
  | some top =>
    rw [ancestry_of_some htop]
    simp only [pulseEntropyBlocks_eq]
    cases hfound : ancestry db.findBlock pulseQuorumEntropyLag top.prevId with
    | none => simp
    | some found =>
      have hlength := ancestry_length hfound
      have hsize : pulseQuorumSize ≤ found.length := by
        rw [hlength]
        decide
      have hheight : pulseQuorumEntropyLag ≤ top.height := by
        obtain ⟨blocks, hblocks⟩ : ∃ blocks,
            ancestry tree.find pulseQuorumEntropyLag top.prevId = some blocks := by
          have hwalk := h.walk
          rw [ancestry_of_some h.found, ancestry_of_some htop, ancestry_of_some (h.sub h.found),
            ancestry_of_some (h.sub htop), hfound] at hwalk
          cases hblocks : ancestry tree.find pulseQuorumEntropyLag top.prevId with
          | none =>
            rw [hblocks] at hwalk
            cases hwalk
          | some blocks => exact ⟨blocks, rfl⟩
        exact tree.ancestry_height (h.sub htop) hblocks
      rw [if_neg (by omega)]
      simp only [Option.map_some, Option.getD_some, append_nil, append_assoc]
      rw [take_append_of_le_length hsize]

/-! ## The window of the feeder -/

/-- The window holds the entropy of the walk that ends at the last block. -/
structure Primed (crypto : Crypto) (tree : BlockTree) (feeder : PulseEntropyFeeder) : Prop where
  unseeded : feeder.init = false → feeder.lastHash = 0
  seeded : feeder.init = true → ∃ block blocks, tree.find feeder.lastHash = some block ∧
    feeder.pulseRound = block.pulse.round ∧
    ancestry tree.find (pulseQuorumEntropyLag + 2) feeder.lastHash = some blocks ∧
    feeder.data = blocks.map (pulseEntropyFromBlock crypto feeder.pulseRound)

theorem primed_empty : Primed crypto tree {} := ⟨fun _ => rfl, fun h => by cases h⟩

variable {feeder : PulseEntropyFeeder}

/-- A window that ends at a block holds the entropy for that block. -/
theorem getWindow_eq (h : HoldsBranch tree db block) (hinit : feeder.init = true)
    (hwalk : ancestry tree.find (pulseQuorumEntropyLag + 2) block.hash = some blocks)
    (hdata : feeder.data = blocks.map (pulseEntropyFromBlock crypto block.pulse.round)) :
    feeder.getWindow = getPulseEntropyForNextBlock crypto db block.prevId block.pulse.round := by
  rw [getPulseEntropyForNextBlock_eq h, hwalk, PulseEntropyFeeder.getWindow, if_pos hinit,
    hdata, Option.map_some, Option.getD_some, map_take]

/-- A block moves the window to the walk that ends at it. -/
theorem Primed.addBlock (hfed : Primed crypto tree feeder) (h : HoldsBranch tree db block)
    (hpulse : block.majorVersion ≥ Hf.hf16Pulse) :
    Primed crypto tree (feeder.addBlock crypto db block) ∧
      (feeder.addBlock crypto db block).getWindow =
        getPulseEntropyForNextBlock crypto db block.prevId block.pulse.round := by
  have htree := h.sub h.found
  unfold PulseEntropyFeeder.addBlock
  rw [if_neg (UInt8.not_lt.mpr hpulse)]
  by_cases hlast : block.hash = feeder.lastHash
  · -- the block was added before
    rw [if_pos hlast]
    refine ⟨hfed, ?_⟩
    cases hinit : feeder.init with
    | false =>
      rw [hlast, hfed.unseeded hinit, tree.null_eq] at htree
      cases htree
    | true =>
      obtain ⟨last, blocks, hfind, hround, hwalk, hdata⟩ := hfed.seeded hinit
      rw [← hlast, htree] at hfind
      obtain rfl := Option.some.inj hfind
      rw [hround] at hdata
      exact getWindow_eq h hinit (hlast ▸ hwalk) hdata
  rw [if_neg hlast]
  split
  · -- the whole window is read from the database
    rw [seedWindow_eq, h.walk]
    cases hfound : ancestry tree.find (pulseQuorumEntropyLag + 2) block.hash with
    | none =>
      refine ⟨primed_empty, ?_⟩
      rw [getPulseEntropyForNextBlock_eq h, hfound]
      rfl
    | some blocks =>
      simp only [Option.map_some, append_nil]
      refine ⟨⟨(fun hinit => by cases hinit), fun _ => ?_⟩, getWindow_eq h rfl hfound rfl⟩
      exact ⟨block, blocks, htree, rfl, hfound, rfl⟩
  · -- the window moves up by one block
    rename_i hshift
    simp only [not_or, not_not, Bool.not_eq_true'] at hshift
    obtain ⟨hinit, hround, hprev⟩ := hshift
    have hinit : feeder.init = true := by simpa using hinit
    obtain ⟨last, blocks, _, _, hwalk, hdata⟩ := hfed.seeded hinit
    have hwalk' : ancestry tree.find (pulseQuorumEntropyLag + 2) block.hash =
        some (blocks.drop 1 ++ [block]) := by
      rw [hprev] at hwalk
      rw [ancestry_of_some htree, ancestry_drop hwalk, Option.map_some]
    have hdata' : feeder.data.drop 1 ++ [pulseEntropyFromBlock crypto block.pulse.round block] =
        (blocks.drop 1 ++ [block]).map (pulseEntropyFromBlock crypto block.pulse.round) := by
      rw [hdata, hround, map_append, map_drop, map_singleton]
    refine ⟨⟨fun hnot => ?_, fun _ => ?_⟩, getWindow_eq h hinit hwalk' hdata'⟩
    · rw [hinit] at hnot
      cases hnot
    · refine ⟨block, _, htree, hround, hwalk', ?_⟩
      simp only [hround]
      exact hdata'

/-- The feeder after blocks, each with the database that held it. -/
def feederOf (crypto : Crypto) (fed : List (ChainDb × Block)) : PulseEntropyFeeder :=
  fed.foldl (fun feeder f => feeder.addBlock crypto f.1 f.2) {}

/-- Blocks of any branches keep the window, with those from before Pulse among them. -/
theorem feederOf_primed {fed : List (ChainDb × Block)} (hfed : ∀ f ∈ fed, HoldsBranch tree f.1 f.2) :
    Primed crypto tree (feederOf crypto fed) := by
  refine foldlRecOn fed _ primed_empty fun feeder hprimed f hf => ?_
  by_cases hpulse : f.2.majorVersion < Hf.hf16Pulse
  · have hsame : feeder.addBlock crypto f.1 f.2 = feeder := if_pos hpulse
    rwa [hsame]
  · exact (hprimed.addBlock (hfed f hf) (UInt8.not_lt.mp hpulse)).1

/-- Whatever was fed in before, of one branch and another and in whatever rounds, the window for
the next block is what the database gives for it. -/
theorem feeder_window_eq (crypto : Crypto) (tree : BlockTree) (fed : List (ChainDb × Block))
    (db : ChainDb) (block : Block) (hfed : ∀ f ∈ fed, HoldsBranch tree f.1 f.2)
    (hdb : HoldsBranch tree db block) (hpulse : block.majorVersion ≥ Hf.hf16Pulse) :
    ((feederOf crypto fed).addBlock crypto db block).getWindow =
      getPulseEntropyForNextBlock crypto db block.prevId block.pulse.round :=
  ((feederOf_primed hfed).addBlock hdb hpulse).2

end

/-! ## The quorum -/

/-- The quorum that a block is verified with, generated from the state before it. -/
def verifyingPulseQuorum {σ : Type} (chain : Chain σ) (block : Block) (state : State) :
    Except Fault Quorum :=
  let active := state.serviceNodesInfos.toList.filter (fun node => node.2.isActive)
  generatePulseQuorum chain.quorumRng chain.config (nextBlockLeader active) block.majorVersion
    active (getPulseEntropyForNextBlock chain.crypto chain.db block.prevId block.pulse.round)
    block.pulse.round

/-- Rotates the validators of a quorum, if it has the right size. -/
def rotatePulseValidators (drawn : Except Fault Quorum) : UpdateM Unit := do
  let quorum ← orThrow drawn
  if verifyPulseQuorumSizes quorum then
    modifyState (fun s => { s with
      serviceNodesInfos := markPulseValidators (s.height + 1) quorum.validators
        s.serviceNodesInfos
      quorums := { s.quorums with pulse := some quorum } })
  else pure ()

theorem toList_keys_nodup {infos : KeyMap PublicKey ServiceNodeInfo} :
    (infos.toList.map Prod.fst).Nodup := by
  rw [nodup_iff_pairwise_ne, pairwise_map]
  apply infos.sorted.imp
  intro a b hlt heq
  rw [heq] at hlt
  exact lt_irrefl _ hlt

section

variable {σ : Type} {chain : Chain σ} {migrations : Migrations} {known : KnownStates}
  {block : Block} {txs : List Transaction} {feed : Option (List Hash)} {w : World}

/-- The window of the main chain, or the entropy of the blocks below. -/
def FeedsFor (chain : Chain σ) (block : Block) (feed : Option (List Hash)) : Prop :=
  feed = none ∨ ∃ tree fed, HoldsBranch tree chain.db block ∧
    (∀ f ∈ fed, HoldsBranch tree f.1 f.2) ∧
    feed = some ((feederOf chain.crypto fed).addBlock chain.crypto chain.db block).getWindow

/-- The quorum is drawn from the same candidates with the same entropy. -/
theorem updatePulseQuorum_eq (hpulse : block.majorVersion ≥ Hf.hf16Pulse)
    (hprev : w.state.blockHash = block.prevId) (hfeed : FeedsFor chain block feed) :
    updatePulseQuorum chain block (preBlock chain block w.state) feed w =
      rotatePulseValidators (verifyingPulseQuorum chain block w.state) w := by
  have hentropy : feed.getD (getPulseEntropyForNextBlock chain.crypto chain.db w.state.blockHash
      block.pulse.round) =
      getPulseEntropyForNextBlock chain.crypto chain.db block.prevId block.pulse.round := by
    rcases hfeed with rfl | ⟨tree, fed, hdb, hfed, rfl⟩
    · rw [hprev, Option.getD_none]
    · exact ((feederOf_primed hfed).addBlock hdb hpulse).2
  have hunique : ((preBlock chain block w.state).active.map Prod.fst).Nodup :=
    toList_keys_nodup.sublist (filter_sublist.map _)
  unfold updatePulseQuorum
  rw [if_pos hpulse, get_bind_run, hentropy, pulseCandidates_eq hunique]
  rfl

/-- The nodes and the block are the same. -/
def SameNodes (w w' : World) : Prop :=
  w'.state.serviceNodesInfos = w.state.serviceNodesInfos ∧
    w'.state.blockHash = w.state.blockHash

instance : Std.Refl SameNodes := ⟨fun _ => ⟨rfl, rfl⟩⟩

instance : IsTrans World SameNodes := ⟨fun _ _ _ h h' => ⟨h'.1.trans h.1, h'.2.trans h.2⟩⟩

theorem applyFixups_sameNodes : Keeps SameNodes (applyFixups chain migrations block) := by
  have hsqlite (m : Rewards.DbM Unit) : Keeps SameNodes (onSqlite m) :=
    onSqlite_keeps (fun _ _ => ⟨rfl, rfl⟩) m
  refine .ite_pure fun _ => .bind (hsqlite _) fun _ => ?_
  exact .bind (.modify fun _ => ⟨rfl, rfl⟩) fun _ => hsqlite _

/-- From Pulse on, `update_from_block` rotates the validators of the quorum that
verifies the block. -/
theorem updateFromBlock_verifyingPulseQuorum (hpulse : block.majorVersion ≥ Hf.hf16Pulse)
    (hprev : w.state.blockHash = block.prevId) (hfeed : FeedsFor chain block feed) :
    updateFromBlock chain migrations known block txs feed w =
      (do
        modifyState (fun s => { s with quorums := {} })
        applyFixups chain migrations block
        rotatePulseValidators (verifyingPulseQuorum chain block w.state)
        advanceBlock chain migrations known block txs (preBlock chain block w.state)) w := by
  unfold updateFromBlock
  rw [modifyState_bind_run, modifyState_bind_run]
  cases hfix : applyFixups chain migrations block
      { w with state := { w.state with quorums := {} } } with
  | error fault w₁ => rw [bind_run_of_error hfix, bind_run_of_error hfix]
  | ok _ w₁ =>
    have hsame : SameNodes { w with state := { w.state with quorums := {} } } w₁ :=
      applyFixups_sameNodes.of_ok hfix
    have hpre : preBlock chain block w₁.state = preBlock chain block w.state := by
      unfold preBlock
      rw [hsame.1]
    have hverify : verifyingPulseQuorum chain block w₁.state =
        verifyingPulseQuorum chain block w.state := by
      unfold verifyingPulseQuorum
      rw [hsame.1]
    have hdrawn := @updatePulseQuorum_eq _ chain block feed w₁ hpulse (hsame.2.trans hprev) hfeed
    rw [bind_run_of_ok hfix, bind_run_of_ok hfix, get_bind_run]
    simp only [hpre] at hdrawn ⊢
    rw [hverify] at hdrawn
    cases hrotate : rotatePulseValidators (verifyingPulseQuorum chain block w.state) w₁ with
    | error => rw [bind_run_of_error hrotate, bind_run_of_error (hdrawn.trans hrotate)]
    | ok => rw [bind_run_of_ok hrotate, bind_run_of_ok (hdrawn.trans hrotate)]

end

/-- A tree of listed blocks. -/
def BlockTree.ofList (blocks : List Block) (hnull : ∀ b ∈ blocks, b.hash ≠ 0)
    (hheight : ∀ b ∈ blocks, ∀ p ∈ blocks, p.hash = b.prevId → b.height = p.height + 1) :
    BlockTree where
  find hash := blocks.find? (fun b => b.hash = hash)
  hash_eq h := by simpa using find?_some h
  height_eq h h' := hheight _ (mem_of_find?_eq_some h) _ (mem_of_find?_eq_some h')
    (by simpa using find?_some h')
  null_eq := find?_eq_none.mpr (by simpa using hnull)

/-- A block of the sample, with its hash. -/
def pulseBlock (height : ℕ) (hash prevId : Hash) (pulseRound : UInt8) : Block :=
  { majorVersion := Hf.hf16Pulse, height, hash, prevId, pulse := { round := pulseRound } }

/-- Twenty-five blocks one above the other. -/
def trunk : List Block :=
  (range 25).map (fun n => pulseBlock n (BitVec.ofNat 256 (n + 1)) (BitVec.ofNat 256 n) 0)

/-- Two blocks on top of the trunk, the first one of a later round. -/
def detachedBlock : Block := pulseBlock 25 100 25 1

@[inherit_doc detachedBlock]
def nextPulseBlock : Block := pulseBlock 25 26 25 0

/-- The tree of the sample. -/
def pulseTree : BlockTree :=
  .ofList (trunk ++ [detachedBlock, nextPulseBlock]) (by decide +kernel) (by decide +kernel)

/-- A chain that holds the blocks, with the sum of the bytes for a hash. -/
def pulseChain : Chain Unit :=
  { acceptingChain ⟨.fakechain, [⟨Hf.hf7, 0, 0⟩, ⟨Hf.hf16Pulse, 0, 1⟩]⟩
      { emptyChainDb with findBlock := pulseTree.find } with
    crypto := { acceptingCrypto with
      cnFastHash := fun bytes => BitVec.ofNat 256 (bytes.map UInt8.toNat).sum } }

/-- The blocks that are fed in: the trunk, and one that is detached again. -/
def fedBlocks : List (ChainDb × Block) := (trunk ++ [detachedBlock]).map (pulseChain.db, ·)

theorem holdsBranch_pulseTree {block : Block} (h : pulseTree.find block.hash = some block) :
    HoldsBranch pulseTree pulseChain.db block := ⟨id, h, rfl⟩

theorem fedBlocks_hold : ∀ f ∈ fedBlocks, HoldsBranch pulseTree f.1 f.2 := by
  have hfound : ∀ b ∈ trunk ++ [detachedBlock], pulseTree.find b.hash = some b := by decide +kernel
  intro f hf
  obtain ⟨b, hb, rfl⟩ := mem_map.mp hf
  exact holdsBranch_pulseTree (hfound b hb)

/-- The window for the detached block is of its round, and the one for the next block is not. -/
theorem feeder_window_eq_nextPulseBlock :
    (feederOf pulseChain.crypto fedBlocks).getWindow =
      [5, 6, 7, 8, 9, 10, 11, 12, 13, 14, 15, 16] ∧
    ((feederOf pulseChain.crypto fedBlocks).addBlock pulseChain.crypto pulseChain.db
      nextPulseBlock).getWindow =
        getPulseEntropyForNextBlock pulseChain.crypto pulseChain.db 25 0 ∧
    getPulseEntropyForNextBlock pulseChain.crypto pulseChain.db 25 0 =
      [4, 5, 6, 7, 8, 9, 10, 11, 12, 13, 14, 15] :=
  ⟨by decide +kernel, feeder_window_eq _ pulseTree _ _ nextPulseBlock fedBlocks_hold
    (holdsBranch_pulseTree (by decide +kernel)) (by decide), by decide +kernel⟩

/-- The state before the next block, with thirteen nodes. -/
def pulseState : State :=
  { height := 24, blockHash := 25
    serviceNodesInfos := (range 13).foldl
      (fun infos n => infos.set (BitVec.ofNat 256 (n + 1)) {}) OrdSet.empty }

/-- The next block rotates the eleven validators of the quorum that verifies it. -/
theorem updateFromBlock_verifyingPulseQuorum_nextPulseBlock :
    verifyingPulseQuorum pulseChain nextPulseBlock pulseState =
      .ok { workers := [1], validators := [2, 3, 4, 5, 6, 7, 8, 9, 10, 11, 12] } ∧
    updateFromBlock pulseChain noMigrations {} nextPulseBlock []
        (some ((feederOf pulseChain.crypto fedBlocks).addBlock pulseChain.crypto pulseChain.db
          nextPulseBlock).getWindow) ⟨pulseState, {}⟩ =
      (do
        modifyState (fun s => { s with quorums := {} })
        applyFixups pulseChain noMigrations nextPulseBlock
        rotatePulseValidators (verifyingPulseQuorum pulseChain nextPulseBlock pulseState)
        advanceBlock pulseChain noMigrations {} nextPulseBlock []
          (preBlock pulseChain nextPulseBlock pulseState)) ⟨pulseState, {}⟩ := by
  refine ⟨by decide +kernel, ?_⟩
  apply updateFromBlock_verifyingPulseQuorum
  · decide
  · rfl
  · exact .inr ⟨pulseTree, fedBlocks, holdsBranch_pulseTree (by decide +kernel), fedBlocks_hold, rfl⟩

end Xeqm.ServiceNodes
