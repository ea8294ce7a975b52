import Mathlib.Algebra.Order.BigOperators.Group.List
import Xeqm.Blockchain.AltBlockChecks

/-!
# Two branches on two nodes

Two nodes that share their checkpoints have the two branches of a fork, each with the other
one of them as its main chain. Each counts the checkpoints on the heights of the branch that
it does not have on top, so that a checkpoint above the end of the shorter branch counts on
one of the nodes only.
-/

namespace Xeqm.Blockchain

open Cryptonote ServiceNodes Checkpoints Lib List

/-! ## Branches -/

/-- Blocks that follow a block, each naming the one before it and one higher. -/
def Linked : Block → List Block → Prop
  | _, [] => True
  | parent, block :: rest =>
    block.prevId = parent.hash ∧ block.height = parent.height + 1 ∧ Linked block rest

variable {blocks : List Block}

theorem linked_concat {parent block : Block} :
    Linked parent (blocks ++ [block]) ↔ Linked parent blocks ∧
      block.prevId = ((blocks.getLast?).getD parent).hash ∧
      block.height = ((blocks.getLast?).getD parent).height + 1 := by
  induction blocks generalizing parent with
  | nil => simp [Linked]
  | cons first rest ih =>
    have hlast : ((first :: rest).getLast?).getD parent = (rest.getLast?).getD first := by
      rw [getLast?_cons, Option.getD_some]
    simp only [cons_append, Linked, ih, hlast]
    constructor
    · rintro ⟨h₁, h₂, h₃, h₄, h₅⟩
      exact ⟨⟨h₁, h₂, h₃⟩, h₄, h₅⟩
    · rintro ⟨⟨h₁, h₂, h₃⟩, h₄, h₅⟩
      exact ⟨h₁, h₂, h₃, h₄, h₅⟩

/-- The heights of blocks that follow a block. -/
theorem Linked.map_height {parent : Block} (h : Linked parent blocks) :
    blocks.map Block.height = List.range' (parent.height + 1) blocks.length := by
  induction blocks generalizing parent with
  | nil => rfl
  | cons _ _ ih =>
    obtain ⟨-, hheight, hrest⟩ := h
    rw [map_cons, ih hrest, length_cons, List.range'_succ, hheight]

/-- A fork: two branches from the last block of a common chain. -/
structure Fork (common : List Block) (root : Block) (left right : List Block) : Prop where
  last : common.getLast? = some root
  height : root.height + 1 = common.length
  left_linked : Linked root left
  right_linked : Linked root right
  left_ne : left ≠ []
  right_ne : right ≠ []
  distinct : ((common ++ left ++ right).map Block.hash).Nodup

/-- The fork seen from the other side. -/
theorem Fork.symm {common left right : List Block} {root : Block}
    (h : Fork common root left right) : Fork common root right left where
  last := h.last
  height := h.height
  left_linked := h.right_linked
  right_linked := h.left_linked
  left_ne := h.right_ne
  right_ne := h.left_ne
  distinct := by
    have hperm : (common ++ right ++ left).Perm (common ++ left ++ right) := by
      rw [append_assoc, append_assoc]
      exact perm_append_comm.append_left common
    exact (hperm.map Block.hash).nodup_iff.mpr h.distinct

/-- A node with one branch on its main chain and the blocks of the other one, but the last,
among its alternative blocks. None of them came with a checkpoint. -/
structure Holds {σ : Type} (chain : ChainState σ) (common main alt : List Block) (root : Block) :
    Prop where
  mainChain : chain.mainChain = common ++ main
  stored : ∀ block ∈ alt.dropLast, ∃ row ∈ chain.altBlocks,
    row.block = block ∧ row.height = block.height ∧ row.checkpoint = none
  root_main : chain.getAltBlock root.hash = none

/-- What a node decides when the last block of a chain of alternative blocks arrives. -/
def decision {σ : Type} (chain : ChainState σ) (block : Block) : Choice :=
  match buildAltChain block.prevId chain with
  | .ok (.ok built) chain =>
    Pending.choose { alt := { block, height := block.height }, built } chain
  | _ => .failed

/-- The node decides to switch to the chain of the block. -/
def Switches {σ : Type} (chain : ChainState σ) (block : Block) : Prop :=
  ∃ keepDisconnectedChain, decision chain block = .switch keepDisconnectedChain

/-- A stored checkpoint is for the block. -/
def IsMatched (store : Store) (block : Block) : Prop :=
  ∃ checkpoint, store.getBlockCheckpoint block.height = some checkpoint ∧
    block.hash = checkpoint.blockHash

/-- A stored checkpoint is for another block of the height. -/
def IsOpposed (store : Store) (block : Block) : Prop :=
  ∃ checkpoint, store.getBlockCheckpoint block.height = some checkpoint ∧
    block.hash ≠ checkpoint.blockHash

variable {checkpoints : Registry}

section

variable {σ : Type} {chain : ChainState σ} {common main alt : List Block} {root : Block}

variable {init : List Block} {altChain : List AltBlock} {difficulty : UInt64} {majorVersion : Hf}
  {store : AltStore} {numAlt num : ℕ}

variable {block : Block}

/-- The walk down the stored blocks of a branch. -/
theorem altAncestors_of_linked (hlinked : Linked root (init ++ [block]))
    (hstored : ∀ b ∈ init, ∃ row ∈ store, row.block = b ∧ row.height = b.height ∧
      row.checkpoint = none) (hroot : store.find? (Ranked.rank root.hash) = none) {fuel : ℕ} :
    ∃ ancestors, altAncestors store (init.length + 1 + fuel) block.prevId = some ancestors ∧
      ancestors.map AltBlock.block = init.reverse ∧
      ∀ row ∈ ancestors, row.height = row.block.height ∧ row.checkpoint = none := by
  induction init using List.reverseRecOn generalizing block with
  | nil =>
    obtain ⟨hprev, -⟩ := hlinked
    refine ⟨[], ?_, rfl, fun row hrow => absurd hrow not_mem_nil⟩
    rw [hprev, length_nil, zero_add, add_comm]
    simp only [altAncestors, hroot]
  | append_singleton init last ih =>
    obtain ⟨hinit, hprev, -⟩ := linked_concat.mp hlinked
    rw [getLast?_concat, Option.getD_some] at hprev
    obtain ⟨row, hrow, rfl, hheight, hcheckpoint⟩ := hstored last (by simp)
    obtain ⟨ancestors, hwalk, hblocks, hrows⟩ := ih hinit
      (fun b hb => hstored b (mem_append_left _ hb))
    have hfind : store.find? (Ranked.rank row.block.hash) = some row :=
      OrdSet.find?_eq_some_iff.mpr ⟨hrow, rfl⟩
    refine ⟨row :: ancestors, ?_, ?_, ?_⟩
    · have hfuel : (init ++ [row.block]).length + 1 + fuel = init.length + 1 + fuel + 1 := by
        rw [length_append, length_singleton]
        omega
      rw [hprev, hfuel]
      simp only [altAncestors, hfind, hwalk, Option.map_some]
    · rw [map_cons, hblocks, reverse_append]
      rfl
    · intro row' hrow'
      rcases mem_cons.mp hrow' with rfl | hrow'
      · exact ⟨hheight, hcheckpoint⟩
      · exact hrows row' hrow'

/-- There are as many stored blocks. -/
theorem length_le_size (hdistinct : (blocks.map Block.hash).Nodup)
    (hstored : ∀ b ∈ blocks, ∃ row ∈ store, row.block = b) : blocks.length ≤ store.size := by
  have hsub : blocks.map Block.hash ⊆ store.toList.map (fun row => row.block.hash) := by
    intro hash hhash
    obtain ⟨b, hb, rfl⟩ := mem_map.mp hhash
    obtain ⟨row, hrow, rfl⟩ := hstored b hb
    exact mem_map.mpr ⟨row, hrow, rfl⟩
  simpa [OrdSet.size] using (hdistinct.subperm hsub).length_le

/-- What the check of a block says. -/
theorem isContradicted_iff : isContradicted checkpoints block.height block.hash = true ↔
      IsOpposed checkpoints.store block := by
  unfold isContradicted Registry.checkBlock IsOpposed
  cases checkpoints.store.getBlockCheckpoint block.height with
  | none => simp
  | some => simp

theorem isCheckpointed_iff {row : AltBlock} (hheight : row.height = row.block.height)
    (hcheckpoint : row.checkpoint = none) :
    isCheckpointed checkpoints row = true ↔ IsMatched checkpoints.store row.block := by
  unfold isCheckpointed Registry.checkBlock IsMatched
  rw [hheight, hcheckpoint]
  cases checkpoints.store.getBlockCheckpoint row.block.height with
  | none => simp
  | some => simp

theorem Holds.height_eq (hholds : Holds chain common main alt root) :
    chain.height = common.length + main.length := by
  have := congrArg List.length hholds.mainChain
  simpa [ChainState.mainChain, ChainState.height] using this

/-- The last common block is on the main chain. -/
theorem Holds.rootRow (hholds : Holds chain common main alt root)
    (hlast : common.getLast? = some root) :
    ∃ row, chain.rows[common.length - 1]? = some row ∧ row.block = root := by
  have hmain : (chain.rows.map ChainRow.block)[common.length - 1]? = some root := by
    change chain.mainChain[common.length - 1]? = some root
    obtain ⟨before, rfl⟩ := getLast?_eq_some_iff.mp hlast
    rw [hholds.mainChain]
    simp
  rw [getElem?_map] at hmain
  exact Option.map_eq_some_iff.mp hmain

/-- What is counted for the stored blocks of a branch. -/
theorem builtChain_of_blocks {ancestors : List AltBlock}
    (hblocks : ancestors.map AltBlock.block = init.reverse)
    (hrows : ∀ row ∈ ancestors, row.height = row.block.height ∧ row.checkpoint = none)
    (rootHeight : ℕ) :
    (builtChain chain ancestors rootHeight).chain.map AltBlock.block = init ∧
      (∀ row ∈ (builtChain chain ancestors rootHeight).chain, row.height = row.block.height) ∧
      (0 < (builtChain chain ancestors rootHeight).numAltCheckpoints ↔
        ∃ b ∈ init, IsMatched chain.checkpoints.store b) ∧
      (0 < (builtChain chain ancestors rootHeight).numCheckpoints ↔
        ∃ b ∈ init, IsOpposed chain.checkpoints.store b) := by
  have hmem : ∀ b, b ∈ init ↔ ∃ row ∈ ancestors, row.block = b := by
    intro b
    rw [← mem_reverse, ← hblocks, mem_map]
  have hcount {p : AltBlock → Bool} {q : Block → Prop}
      (h : ∀ row ∈ ancestors, p row = true ↔ q row.block) :
      0 < ancestors.countP p ↔ ∃ b ∈ init, q b := by
    simp only [countP_pos_iff, hmem]
    constructor
    · rintro ⟨row, hrow, hp⟩
      exact ⟨row.block, ⟨row, hrow, rfl⟩, (h row hrow).mp hp⟩
    · rintro ⟨-, ⟨row, hrow, rfl⟩, hq⟩
      exact ⟨row, hrow, (h row hrow).mpr hq⟩
  refine ⟨?_, ?_, ?_, ?_⟩
  · simp only [builtChain, map_reverse, map_map, Function.comp_def, extendedInfo_block]
    rw [hblocks, reverse_reverse]
  · intro row hrow
    obtain ⟨alt, halt, rfl⟩ := mem_map.mp (mem_reverse.mp hrow)
    rw [extendedInfo_block, extendedInfo_height]
    exact (hrows alt halt).1
  · exact hcount fun row hrow => isCheckpointed_iff (hrows row hrow).1 (hrows row hrow).2
  · refine hcount (fun row hrow => ?_)
    rw [(hrows row hrow).1]
    exact isContradicted_iff

/-- A node that holds the two branches of a fork builds the other branch. -/
theorem buildAltChain_of_holds (hfork : Fork common root main (init ++ [block]))
    (hholds : Holds chain common main (init ++ [block]) root)
    (hallowed : (chain.checkpoints.isAlternativeBlockAllowed chain.height common.length).1 = true) :
    ∃ ancestors rootHeight after,
      buildAltChain block.prevId chain = .ok (.ok (builtChain chain ancestors rootHeight)) after ∧
      after.rows = chain.rows ∧ after.checkpoints.store = chain.checkpoints.store ∧
      ancestors.map AltBlock.block = init.reverse ∧
      ∀ row ∈ ancestors, row.height = row.block.height ∧ row.checkpoint = none := by
  have hstored := hholds.stored
  rw [dropLast_concat] at hstored
  have hdistinct : (init.map Block.hash).Nodup := by
    refine .sublist (.map _ ?_) hfork.distinct
    rw [← append_assoc]
    exact (sublist_append_right _ _).trans (sublist_append_left _ _)
  have hsize : init.length ≤ chain.altBlocks.size :=
    length_le_size hdistinct fun b hb => (hstored b hb).imp fun row h => ⟨h.1, h.2.1⟩
  obtain ⟨ancestors, hwalk, hblocks, hrows⟩ := altAncestors_of_linked hfork.right_linked hstored
    hholds.root_main
  rw [show init.length + 1 + (chain.altBlocks.size - init.length) = chain.altBlocks.size + 1 by omega]
    at hwalk
  obtain ⟨rootRow, hrootRow, hrootBlock⟩ := hholds.rootRow hfork.last
  have hrootMem : rootRow ∈ chain.rows := mem_of_getElem? hrootRow
  have hexists : chain.blockExists root.hash = true :=
    any_eq_true.mpr ⟨rootRow, hrootMem, by simp [hrootBlock]⟩
  obtain ⟨rootHeight, hrootHeight⟩ : ∃ k, chain.getBlockHeight root.hash = some k := by
    refine Option.isSome_iff_exists.mp (findIdx?_isSome.trans hexists)
  unfold buildAltChain
  rw [get_bind_run]
  simp only [hwalk, orThrow, pure_bind]
  cases hlast : ancestors.getLast? with
  | none =>
    have hnil : ancestors = [] := getLast?_eq_none_iff.mp hlast
    subst hnil
    have hinit : init = [] := by simpa using hblocks.symm
    subst hinit
    obtain ⟨hprev, -⟩ := hfork.right_linked
    simp only [hprev, hexists, if_true, hrootHeight, pure_bind]
    exact ⟨[], rootHeight, chain, rfl, rfl, rfl, rfl, hrows⟩
  | some front =>
    obtain ⟨before, rfl⟩ := getLast?_eq_some_iff.mp hlast
    have hinit : init = front.block :: (before.map AltBlock.block).reverse := by
      rw [← reverse_reverse init, ← hblocks]
      simp
    obtain ⟨hprev, hheight, -⟩ : front.block.prevId = root.hash ∧
        front.block.height = root.height + 1 ∧ Linked front.block
          ((before.map AltBlock.block).reverse ++ [block]) := by
      have hlinked := hfork.right_linked
      rw [hinit] at hlinked
      exact hlinked
    have hfront : front.height = common.length := by
      rw [(hrows front (by simp)).1, hheight, hfork.height]
    have hbelow : chain.rowBelow front.height = some rootRow := by
      rw [hfront, ChainState.rowBelow, if_neg (by have := hfork.height; omega)]
      exact hrootRow
    have hpass : ¬ (chain.height < front.height ∨ (!chain.blockExists front.block.prevId) = true ∨
        rootRow.block.hash ≠ front.block.prevId) := by
      rw [hprev, hexists, hrootBlock, hfront, hholds.height_eq]
      simp
    simp only [hbelow, pure_bind, if_neg hpass, modify_bind_run]
    simp only [hfront, hallowed, if_true, hprev, hrootHeight, pure_bind]
    exact ⟨_, rootHeight, _, rfl, rfl, isAlternativeBlockAllowed_store, hblocks, hrows⟩

/-- The blocks of the main branch can be read. -/
def Readable (chain : ChainState σ) (start : ℕ) : Prop :=
  (chain.rows.drop start).all ChainRow.hasBody = true

/-- The blocks that the weights are compared for. -/
theorem Holds.getBlocks (hholds : Holds chain common main alt root) (hmain : main ≠ []) {count : ℕ}
    (hcount : main.length ≤ count) :
    chain.getBlocks common.length count =
      if (chain.rows.drop common.length).all ChainRow.hasBody then some main else none := by
  have hheight := hholds.height_eq
  have hlength : 0 < main.length := length_pos_of_ne_nil hmain
  have hrows : (chain.rows.drop common.length).take count = chain.rows.drop common.length := by
    apply take_of_length_le
    rw [length_drop]
    change chain.height - common.length ≤ count
    omega
  have hblocks : (chain.rows.drop common.length).map ChainRow.block = main := by
    rw [map_drop]
    change chain.mainChain.drop common.length = main
    rw [hholds.mainChain, drop_left]
  unfold ChainState.getBlocks
  rw [if_neg (by omega), hrows]
  dsimp only
  rw [hblocks]

/-- When Pulse blocks switch: with more checkpoints for the other chain, or with as many and
more weight. -/
theorem chooseChain_eq_switch_iff (hversion : majorVersion ≥ Hf.hf16Pulse) :
    chooseChain chain majorVersion altChain numAlt num difficulty = .switch false ↔
      num < numAlt ∨ (numAlt = num ∧ ∃ blocks,
        chain.getBlocks ((altChain.head?.map AltBlock.height).getD 0)
          (max ((altChain.getLast?.map AltBlock.height).getD 0 + 1) chain.height -
            (altChain.head?.map AltBlock.height).getD 0) = some blocks ∧
        chainWeight blocks < chainWeight (altChain.map AltBlock.block)) := by
  unfold chooseChain
  rw [if_pos hversion]
  by_cases hmore : numAlt > num
  · simp [hmore]
  · rw [if_neg hmore]
    by_cases hequal : numAlt = num
    · rw [if_pos hequal]
      dsimp only
      cases chain.getBlocks ((altChain.head?.map AltBlock.height).getD 0)
          (max ((altChain.getLast?.map AltBlock.height).getD 0 + 1) chain.height -
            (altChain.head?.map AltBlock.height).getD 0) with
      | none => simp [hequal]
      | some blocks => simp [hequal]
    · rw [if_neg hequal]
      simp [hequal, Nat.not_lt.mp hmore]

theorem chooseChain_ne_switch_true (hversion : majorVersion ≥ Hf.hf16Pulse) :
    chooseChain chain majorVersion altChain numAlt num difficulty ≠ .switch true := by
  unfold chooseChain
  rw [if_pos hversion]
  dsimp only
  split
  · simp
  · split
    · split
      · simp
      · split <;> simp
    · simp

/-- The last block of a branch counts only against it. -/
theorem opposed_concat_iff (hnum : 0 < num ↔ ∃ b ∈ init, IsOpposed checkpoints.store b) :
    0 < num + (if isContradicted checkpoints block.height block.hash = true then 1 else 0) ↔
      ∃ b ∈ init ++ [block], IsOpposed checkpoints.store b := by
  have hblock := @isContradicted_iff checkpoints block
  split <;> simp_all

/-- The choice that a node makes between the branches of a fork: if its checkpoints are for
the other branch, that one; if they are for none, the heavier one. -/
theorem decision_eq_switch_iff (hfork : Fork common root main (init ++ [block]))
    (hholds : Holds chain common main (init ++ [block]) root)
    (hallowed : (chain.checkpoints.isAlternativeBlockAllowed chain.height common.length).1 = true)
    (hversion : block.majorVersion ≥ Hf.hf16Pulse)
    (hone : (∃ b ∈ init, IsMatched chain.checkpoints.store b) →
      ¬ ∃ b ∈ init ++ [block], IsOpposed chain.checkpoints.store b) :
    decision chain block = .switch false ↔
      (∃ b ∈ init, IsMatched chain.checkpoints.store b) ∨
      ((¬ ∃ b ∈ init ++ [block], IsOpposed chain.checkpoints.store b) ∧
        Readable chain common.length ∧ chainWeight main < chainWeight (init ++ [block])) := by
  obtain ⟨ancestors, rootHeight, after, hrun, hafter, hstore, hblocks, hrows⟩ :=
    buildAltChain_of_holds hfork hholds hallowed
  obtain ⟨hchain, hheights, hnumAlt, hnum⟩ := @builtChain_of_blocks _ chain _ _ hblocks hrows rootHeight
  unfold decision
  rw [hrun]
  dsimp only [Pending.choose]
  rw [chooseChain_eq_switch_iff hversion]
  generalize builtChain chain ancestors rootHeight = built at hchain hheights hnumAlt hnum
  let last : AltBlock := { block, height := block.height }
  change _ < built.numAltCheckpoints + 0 ∨ (built.numAltCheckpoints + 0 = _ ∧ _) ↔ _
  have haltBlocks : (built.chain ++ [last]).map AltBlock.block = init ++ [block] := by
    rw [map_append, hchain]
    rfl
  have haltHeights : (built.chain ++ [last]).map AltBlock.height =
      List.range' common.length (init.length + 1) := by
    have hmap : (init ++ [block]).map Block.height =
        List.range' common.length (init.length + 1) := by
      rw [hfork.right_linked.map_height, hfork.height, length_append, length_singleton]
    rw [← hmap, ← hchain, map_append, map_append, map_map]
    exact congrArg (· ++ _) (map_congr_left hheights)
  have hstart : ((built.chain ++ [last]).head?.map AltBlock.height).getD 0 = common.length := by
    rw [← head?_map, haltHeights]
    rfl
  have hread : ∀ count, main.length ≤ count → after.getBlocks common.length count =
      if (chain.rows.drop common.length).all ChainRow.hasBody then some main else none := by
    intro count hcount
    rw [← hholds.getBlocks hfork.left_ne hcount]
    unfold ChainState.getBlocks ChainState.height
    rw [hafter]
  have hheight : after.height = common.length + main.length := by
    rw [ChainState.height, hafter]
    exact hholds.height_eq
  rw [hstart, hread _ (by omega), haltBlocks]
  rw [← hstore] at hnum hone hnumAlt ⊢
  have hopposed := @opposed_concat_iff _ _ _ block hnum
  rw [← hnumAlt, ← hopposed] at hone ⊢
  have hsome : (∃ blocks, (if (chain.rows.drop common.length).all ChainRow.hasBody = true
      then some main else none) = some blocks ∧ chainWeight blocks < chainWeight (init ++ [block])) ↔
      Readable chain common.length ∧ chainWeight main < chainWeight (init ++ [block]) := by
    unfold Readable
    by_cases hbodies : (chain.rows.drop common.length).all ChainRow.hasBody = true
    · simp [hbodies]
    · simp [hbodies]
  rw [hsome]
  constructor
  · rintro (hmore | ⟨hequal, hweight⟩)
    · exact .inl (by omega)
    · by_cases hpos : 0 < built.numAltCheckpoints
      · exact .inl hpos
      · exact .inr ⟨by omega, hweight⟩
  · rintro (hpos | ⟨hnone, hweight⟩)
    · have := hone hpos
      exact .inl (by omega)
    · by_cases hpos : 0 < built.numAltCheckpoints
      · exact .inl (by omega)
      · exact .inr ⟨by omega, hweight⟩

end

/-! ## Both nodes -/

namespace Fork

variable {common left right : List Block} {root : Block}

section

variable (h : Fork common root left right) {block block' : Block}

include h

theorem height_of_mem_left (hblock : block ∈ left) :
    common.length ≤ block.height ∧ block.height < common.length + left.length := by
  have hmem : block.height ∈ left.map Block.height := mem_map_of_mem hblock
  rw [h.left_linked.map_height, h.height, mem_range'_1] at hmem
  exact hmem

theorem exists_left_of_height {height : ℕ} (hlow : common.length ≤ height)
    (hhigh : height < common.length + left.length) :
    ∃ block ∈ left, block.height = height := by
  have hmem : height ∈ left.map Block.height := by
    rw [h.left_linked.map_height, h.height, mem_range'_1]
    exact ⟨hlow, hhigh⟩
  exact mem_map.mp hmem

theorem eq_of_height_left (hblock : block ∈ left) (hblock' : block' ∈ left)
    (heq : block.height = block'.height) :
    block = block' := by
  have hnodup : (left.map Block.height).Nodup := by
    rw [h.left_linked.map_height]
    exact nodup_range'
  exact inj_on_of_nodup_map hnodup hblock hblock' heq

theorem hash_ne (hblock : block ∈ left) (hblock' : block' ∈ right) : block.hash ≠ block'.hash := by
  have hdistinct := h.distinct
  rw [map_append, nodup_append] at hdistinct
  refine hdistinct.2.2 _ ?_ _ (mem_map_of_mem hblock')
  exact mem_map_of_mem (mem_append_right _ hblock)

end

end Fork

/-- No two heights of some blocks have checkpoints. -/
def OneCheckpoint (store : Store) (blocks : List Block) : Prop :=
  ∀ block ∈ blocks, ∀ block' ∈ blocks, ∀ checkpoint checkpoint',
    store.getBlockCheckpoint block.height = some checkpoint →
    store.getBlockCheckpoint block'.height = some checkpoint' → block.height = block'.height

theorem OneCheckpoint.comm {store : Store} {left right : List Block}
    (h : OneCheckpoint store (left ++ right)) : OneCheckpoint store (right ++ left) := by
  intro block hblock block' hblock'
  exact h block (mem_append.mpr (mem_append.mp hblock).symm) block'
    (mem_append.mpr (mem_append.mp hblock').symm)

namespace Fork

variable {common left right : List Block} {root : Block} {store : Store}

section

variable (h : Fork common root left right)

include h

/-- If the branches may be replaced, there is one checkpoint on them at most. -/
theorem oneCheckpoint (hle : left.length ≤ right.length)
    (hallowed : (checkpoints.isAlternativeBlockAllowed (common.length + right.length)
      common.length).1 = true) : OneCheckpoint checkpoints.store (left ++ right) := by
  have hbounds : ∀ b ∈ left ++ right,
      common.length ≤ b.height ∧ b.height < common.length + right.length := by
    intro b hb
    rcases mem_append.mp hb with hb | hb
    · have := h.height_of_mem_left hb
      omega
    · exact h.symm.height_of_mem_left hb
  intro block hblock block' hblock' checkpoint checkpoint' hget hget'
  obtain ⟨row, hrow, -⟩ := Option.map_eq_some_iff.mp hget
  obtain ⟨row', hrow', -⟩ := Option.map_eq_some_iff.mp hget'
  obtain ⟨hmem, hheight⟩ := OrdSet.find?_eq_some_iff.mp hrow
  obtain ⟨hmem', hheight'⟩ := OrdSet.find?_eq_some_iff.mp hrow'
  have hlow := hbounds block hblock
  have hlow' := hbounds block' hblock'
  have hnot := Registry.not_lt_of_allowed hallowed hmem hmem' (by omega) (by omega)
  have hnot' := Registry.not_lt_of_allowed hallowed hmem' hmem (by omega) (by omega)
  omega

/-- The checkpoint is for the left branch or against it. -/
theorem not_opposed_of_matched (hone : OneCheckpoint store (left ++ right))
    (hmatched : ∃ b ∈ left, IsMatched store b) :
    ¬ ∃ b ∈ left, IsOpposed store b := by
  rintro ⟨opposed, hopposed, checkpoint', hget', hne⟩
  obtain ⟨matched, hmatched, checkpoint, hget, heq⟩ := hmatched
  have hheight := hone matched (mem_append_left _ hmatched) opposed
    (mem_append_left _ hopposed) _ _ hget hget'
  obtain rfl := h.eq_of_height_left hmatched hopposed hheight
  rw [hget] at hget'
  cases hget'
  exact hne heq

/-- A checkpoint for a block of the left branch is against the block of that height on the
right one. -/
theorem opposed_of_matched {block : Block} (hblock : block ∈ left)
    (hmatched : IsMatched store block) (hlow : block.height < common.length + right.length) :
    ∃ b ∈ right, IsOpposed store b := by
  obtain ⟨checkpoint, hget, heq⟩ := hmatched
  obtain ⟨other, hother, hheight⟩ :=
    h.symm.exists_left_of_height (h.height_of_mem_left hblock).1 hlow
  refine ⟨other, hother, checkpoint, hheight ▸ hget, ?_⟩
  rw [← heq]
  exact (h.hash_ne hblock hother).symm

end

end Fork

section

variable {σ : Type} {common left right : List Block} {root lastLeft lastRight : Block}

/-- A checkpoint for a block that only the longer branch has, below its last one, when the
shorter branch is the heavier one. The node on the longer branch does not look at the
checkpoint, and the one on the shorter branch does. -/
def Overlooked (onLong : ChainState σ) (common short long : List Block) : Prop :=
  (∃ block ∈ long.dropLast, common.length + short.length ≤ block.height ∧
    IsMatched onLong.checkpoints.store block) ∧
  Readable onLong common.length ∧ chainWeight long < chainWeight short

/-- The two nodes with the two branches of a fork, both of which may be replaced. -/
structure Opposite (onLeft onRight : ChainState σ) (common : List Block) (root : Block)
    (left right : List Block) (lastLeft lastRight : Block) : Prop where
  fork : Fork common root (left ++ [lastLeft]) (right ++ [lastRight])
  holdsLeft : Holds onLeft common (left ++ [lastLeft]) (right ++ [lastRight]) root
  holdsRight : Holds onRight common (right ++ [lastRight]) (left ++ [lastLeft]) root
  shared : onLeft.checkpoints.store = onRight.checkpoints.store
  versionLeft : lastLeft.majorVersion ≥ Hf.hf16Pulse
  versionRight : lastRight.majorVersion ≥ Hf.hf16Pulse
  allowedLeft :
    (onLeft.checkpoints.isAlternativeBlockAllowed onLeft.height common.length).1 = true
  allowedRight :
    (onRight.checkpoints.isAlternativeBlockAllowed onRight.height common.length).1 = true

variable {onLeft onRight : ChainState σ}

section

variable (h : Opposite onLeft onRight common root left right lastLeft lastRight)

include h

theorem Opposite.symm : Opposite onRight onLeft common root right left lastRight lastLeft :=
  ⟨h.fork.symm, h.holdsRight, h.holdsLeft, h.shared.symm, h.versionRight, h.versionLeft,
    h.allowedRight, h.allowedLeft⟩

section

variable (hle : (left ++ [lastLeft]).length ≤ (right ++ [lastRight]).length)

include hle

/-- Both nodes switch if the checkpoint is overlooked, given which branch is the longer one. -/
theorem Opposite.both_switch_iff_of_le :
    decision onLeft lastRight = .switch false ∧ decision onRight lastLeft = .switch false ↔
      Overlooked onRight common (left ++ [lastLeft]) (right ++ [lastRight]) := by
  have hone : OneCheckpoint onRight.checkpoints.store ((left ++ [lastLeft]) ++ (right ++ [lastRight])) :=
    h.fork.oneCheckpoint hle (h.holdsRight.height_eq ▸ h.allowedRight)
  have hinit : ∀ {init : List Block} {last : Block} {P : Block → Prop}, (∃ b ∈ init, P b) →
      ∃ b ∈ init ++ [last], P b :=
    fun ⟨b, hb, hP⟩ => ⟨b, mem_append_left _ hb, hP⟩
  have honLeft := decision_eq_switch_iff h.fork h.holdsLeft h.allowedLeft h.versionRight
    (fun hm => by
      rw [h.shared] at hm ⊢
      exact h.fork.symm.not_opposed_of_matched hone.comm (hinit hm))
  have honRight := decision_eq_switch_iff h.fork.symm h.holdsRight h.allowedRight h.versionLeft
    (fun hm => h.fork.not_opposed_of_matched hone (hinit hm))
  rw [h.shared] at honLeft
  rw [honLeft, honRight, Overlooked, dropLast_concat]
  constructor
  · rintro ⟨hleft, hright⟩
    have hnotLeft : ¬ ∃ b ∈ left, IsMatched onRight.checkpoints.store b := by
      -- the checkpoint would be against the block of its height on the longer branch
      rintro ⟨b, hb, hmatched⟩
      have hb' := mem_append_left [lastLeft] hb
      have hopposed := h.fork.opposed_of_matched hb' hmatched
        (lt_of_lt_of_le (h.fork.height_of_mem_left hb').2 (by omega))
      rcases hleft with hmatched' | ⟨hnone, -⟩
      · exact h.fork.symm.not_opposed_of_matched hone.comm (hinit hmatched') hopposed
      · exact hnone hopposed
    rcases hright with hmatched | ⟨hnone, hread, hweight⟩
    · exact absurd hmatched hnotLeft
    rcases hleft with ⟨b, hb, hmatched⟩ | ⟨-, -, hweight'⟩
    · refine ⟨⟨b, hb, Nat.not_lt.mp (fun hlow => hnone ?_), hmatched⟩, hread, hweight⟩
      exact h.fork.symm.opposed_of_matched (mem_append_left _ hb) hmatched hlow
    · exact absurd hweight (UInt64.lt_asymm hweight')
  · rintro ⟨⟨b, hb, hhigh, hmatched⟩, hread, hweight⟩
    refine ⟨.inl ⟨b, hb, hmatched⟩, .inr ⟨?_, hread, hweight⟩⟩
    rintro ⟨b', hb', checkpoint', hget', -⟩
    obtain ⟨checkpoint, hget, -⟩ := hmatched
    have hsame := hone b' (mem_append_left _ hb') b
      (mem_append_right _ (mem_append_left _ hb)) _ _ hget' hget
    have := (h.fork.height_of_mem_left hb').2
    omega

/-- Above the end of the longer branch there is no block of the shorter one. -/
theorem Opposite.not_overlooked :
    ¬ Overlooked onLeft common (right ++ [lastRight]) (left ++ [lastLeft]) := by
  rintro ⟨⟨b, hb, hhigh, -⟩, -⟩
  have := (h.fork.height_of_mem_left (dropLast_subset _ hb)).2
  omega

end

/-- Exactly when both nodes switch. -/
theorem Opposite.both_switch_iff :
    decision onLeft lastRight = .switch false ∧ decision onRight lastLeft = .switch false ↔
      Overlooked onRight common (left ++ [lastLeft]) (right ++ [lastRight]) ∨
      Overlooked onLeft common (right ++ [lastRight]) (left ++ [lastLeft]) := by
  rcases le_total (left ++ [lastLeft]).length (right ++ [lastRight]).length with hle | hle
  · rw [h.both_switch_iff_of_le hle, or_iff_left (h.not_overlooked hle)]
  · rw [and_comm, h.symm.both_switch_iff_of_le hle, or_iff_right (h.symm.not_overlooked hle)]

end

/-- From the Pulse fork on a switch does not keep the old chain. -/
theorem switches_iff {chain : ChainState σ} {block : Block}
    (hversion : block.majorVersion ≥ Hf.hf16Pulse) :
    Switches chain block ↔ decision chain block = .switch false := by
  refine ⟨?_, fun h => ⟨false, h⟩⟩
  rintro ⟨keep, hkeep⟩
  cases keep with
  | false => exact hkeep
  | true =>
    unfold decision at hkeep
    split at hkeep
    · exact absurd hkeep (chooseChain_ne_switch_true hversion)
    · cases hkeep

/-! ## Weights -/

/-- What a block adds to the weight of its chain, as a number. -/
def exactWeight (block : Block) : ℕ :=
  1 + if block.hasPulse then 144403552893600 / (1 + block.pulse.round.toNat) else 0

theorem blockChoiceWeight_toNat (block : Block) :
    (blockChoiceWeight block).toNat = exactWeight block := by
  have hround := block.pulse.round.toNat_lt
  have hsum : (1 + block.pulse.round.toUInt64).toNat = 1 + block.pulse.round.toNat := by
    rw [UInt64.toNat_add, UInt8.toNat_toUInt64]
    exact Nat.mod_eq_of_lt (by rw [UInt64.toNat_one]; omega)
  have hle := Nat.div_le_self 144403552893600 (1 + block.pulse.round.toNat)
  unfold blockChoiceWeight exactWeight
  split
  · rw [UInt64.toNat_add, UInt64.toNat_div, hsum]
    change (1 + 144403552893600 / (1 + block.pulse.round.toNat)) % 2 ^ 64 = _
    exact Nat.mod_eq_of_lt (by omega)
  · rfl

theorem exactWeight_le (block : Block) : exactWeight block ≤ 144403552893601 := by
  have hle := Nat.div_le_self 144403552893600 (1 + block.pulse.round.toNat)
  unfold exactWeight
  split <;> omega

theorem foldl_weight_toNat {weight : UInt64}
    (h : weight.toNat + (blocks.map exactWeight).sum < 2 ^ 64) :
    (blocks.foldl (fun weight block => weight + blockChoiceWeight block) weight).toNat =
      weight.toNat + (blocks.map exactWeight).sum := by
  induction blocks generalizing weight with
  | nil => simp
  | cons block rest ih =>
    rw [map_cons, sum_cons] at h ⊢
    have hstep : (weight + blockChoiceWeight block).toNat = weight.toNat + exactWeight block := by
      rw [UInt64.toNat_add, blockChoiceWeight_toNat, Nat.mod_eq_of_lt (by omega)]
    rw [foldl_cons, ih (by omega), hstep, add_assoc]

/-- The weight of a short chain is the sum of the weights of its blocks. -/
theorem chainWeight_toNat (h : blocks.length < 120000) :
    (chainWeight blocks).toNat = (blocks.map exactWeight).sum := by
  have hsum : (blocks.map exactWeight).sum ≤ blocks.length * 144403552893601 := by
    rw [← length_map exactWeight]
    refine sum_le_card_nsmul _ _ fun weight hweight => ?_
    obtain ⟨block, -, rfl⟩ := mem_map.mp hweight
    exact exactWeight_le block
  unfold chainWeight
  rw [foldl_weight_toNat (by rw [UInt64.toNat_zero]; omega), UInt64.toNat_zero, zero_add]

/-- The two nodes switch to each other's branch only if a checkpoint is overlooked, and the
weights that they compare do not overflow. -/
theorem opposite_nodes_not_both_switch_iff {onLeft onRight : ChainState σ}
    (h : Opposite onLeft onRight common root left right lastLeft lastRight) :
    (¬ (Switches onLeft lastRight ∧ Switches onRight lastLeft) ↔
      ¬ Overlooked onRight common (left ++ [lastLeft]) (right ++ [lastRight]) ∧
      ¬ Overlooked onLeft common (right ++ [lastRight]) (left ++ [lastLeft])) ∧
    ∀ branch : List Block, branch.length < 120000 →
      (chainWeight branch).toNat = (branch.map exactWeight).sum := by
  refine ⟨?_, fun branch hbranch => chainWeight_toNat hbranch⟩
  rw [switches_iff h.versionRight, switches_iff h.versionLeft, h.both_switch_iff, not_or]

end

/-- A branch of one block and one of two, without checkpoints. -/
theorem opposite_nodes_not_both_switch_sample :
    ¬ (Switches (sampleChain [sampleBlock 1 0 0, sampleBlock 2 1 1, sampleBlock 3 2 2]
          [sampleBlock 4 2 2]) (sampleBlock 5 4 3) ∧
        Switches (sampleChain [sampleBlock 1 0 0, sampleBlock 2 1 1, sampleBlock 4 2 2,
          sampleBlock 5 4 3] []) (sampleBlock 3 2 2)) := by
  have hopposite : Opposite
      (sampleChain [sampleBlock 1 0 0, sampleBlock 2 1 1, sampleBlock 3 2 2] [sampleBlock 4 2 2])
      (sampleChain [sampleBlock 1 0 0, sampleBlock 2 1 1, sampleBlock 4 2 2, sampleBlock 5 4 3] [])
      [sampleBlock 1 0 0, sampleBlock 2 1 1] (sampleBlock 2 1 1) [] [sampleBlock 4 2 2]
      (sampleBlock 3 2 2) (sampleBlock 5 4 3) :=
    { fork :=
        { last := rfl
          height := rfl
          left_linked := ⟨rfl, rfl, trivial⟩
          right_linked := ⟨rfl, rfl, rfl, rfl, trivial⟩
          left_ne := cons_ne_nil _ _
          right_ne := cons_ne_nil _ _
          distinct := by decide +kernel }
      holdsLeft := ⟨rfl, by decide +kernel, by decide +kernel⟩
      holdsRight := ⟨rfl, by decide +kernel, by decide +kernel⟩
      shared := rfl
      versionLeft := by decide
      versionRight := by decide
      allowedLeft := by decide +kernel
      allowedRight := by decide +kernel }
  refine (opposite_nodes_not_both_switch_iff hopposite).1.mpr ⟨?_, ?_⟩
  · rintro ⟨⟨block, -, -, checkpoint, hget, -⟩, -⟩
    cases hget
  · rintro ⟨⟨block, -, -, checkpoint, hget, -⟩, -⟩
    cases hget

/-- Blocks 100, 101 and 102 are mined on block 99, and so is block 200 of the first Pulse round.
Two nodes have the mined blocks and the checkpoint of height 100, and one of them also one of
height 1001 from its file. When block 200 arrives there, the detach takes steps of four from height
1001 and leaves the checkpoint of height 100. Now both have the same checkpoints, and each of them
leaves its own branch for the other one. -/
theorem opposite_nodes_both_switch :
    let checkpoint : Checkpoint := { type := .serviceNode, height := 100, blockHash := 101 }
    let store : Store := ({} : Store).updateCheckpoint checkpoint |>.2
    let common := (List.range 99).map (fun (n : ℕ) => sampleBlock (n + 1) n n)
    let pulse := { sampleBlock 200 99 99 with pulse := { validatorBitset := 1 } }
    let mined := [sampleBlock 100 99 99, sampleBlock 101 100 100]
    let last := sampleBlock 102 101 101
    let handle (chain : ChainState Unit) (block : Block) : ChainState Unit :=
      finalState (handleAlternativeBlock (sampleRules (fun _ => false)) 1 block none chain)
    let onMined := sampleChain (common ++ mined ++ [last]) [] store
    let onPulse := (pulse :: mined).foldl handle
      (sampleChain (common ++ mined ++ [last]) [] (store.addCheckpoint 1001 9).2)
    onPulse.mainChain = common ++ [pulse] ∧
      onPulse.checkpoints.store.rows = onMined.checkpoints.store.rows ∧
      decision onPulse last = .switch false ∧ decision onMined pulse = .switch false ∧
      (handle onPulse last).mainChain = onMined.mainChain ∧
      (handle onMined pulse).mainChain = onPulse.mainChain := by
  decide +kernel

end Xeqm.Blockchain
