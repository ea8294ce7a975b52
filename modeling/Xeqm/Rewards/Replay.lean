import Xeqm.Lib.Table
import Xeqm.Rewards.Rollback

/-!
# Detaching and adding again

The backup tables hold the balances of earlier heights, and a detach puts those of
one height back. Two databases keep the same books if they agree on the balances,
the height and the delayed payments that are still to come; adding a block keeps
it that way. So blocks that are added again after a detach do what they did before.
-/

namespace Xeqm.Rewards

open Cryptonote Lib ServiceNodes List

/-! ## Raising the height -/

/-- Whether the backups and the old delayed payments are handled at a height. -/
def isArchiveHeight (conf : NetworkConfig) (height : ℕ) : Bool :=
  height % conf.historyArchiveInterval = 0

/-- The database one block higher, with its backups. -/
def raised (conf : NetworkConfig) (db : RewardsDb) : RewardsDb :=
  let height := db.height + 1
  let copy := db.accrued.map (fun row => ⟨height, row⟩)
  { db with
    height := height
    infoHeight := height
    recent := prune height conf.historyRecentKeepWindow (db.recent ++ copy)
    archive :=
      if isArchiveHeight conf height then
        prune height conf.historyArchiveKeepWindow (db.archive ++ copy)
      else db.archive
    delayedPayments :=
      if isArchiveHeight conf height then
        db.delayedPayments.filter
          (fun p => height ≤ p.payoutHeight + conf.historyArchiveKeepWindow)
      else db.delayedPayments }

/-- The database is at one height, and no backup lies above it. -/
structure AtHeight (height : ℕ) (db : RewardsDb) : Prop where
  height_eq : db.height = height
  infoHeight_eq : db.infoHeight = height
  recent_le : ∀ b ∈ db.recent, b.height ≤ height
  archive_le : ∀ b ∈ db.archive, b.height ≤ height

variable {conf : NetworkConfig}

/-- Without backups above, writing the next height succeeds. -/
theorem updateHeight_raised {height : ℕ} {db : RewardsDb}
    (h : AtHeight height db) : updateHeight conf (height + 1) db = .ok () (raised conf db) := by
  obtain ⟨hheight, hinfo, hrecent, harchive⟩ := h
  have hfresh {backup : List BackupRow} (hle : ∀ b ∈ backup, b.height ≤ height) :
      ∀ b ∈ backup, b.height ≠ height + 1 := fun b hb => (Nat.lt_succ_of_le (hle b hb)).ne
  have hlt : height + 1 > db.infoHeight := by omega
  by_cases hinterval : (height + 1) % conf.historyArchiveInterval = 0 <;>
    simp [updateHeight, setInfoHeight, hlt, copyAccrued_of_fresh (hfresh hrecent),
      copyAccrued_of_fresh (hfresh harchive), Rewards.raised, hheight, isArchiveHeight, hinterval]

theorem AtHeight.raised {height : ℕ} {db : RewardsDb}
    (h : AtHeight height db) : AtHeight (height + 1) (raised conf db) := by
  obtain ⟨hheight, hinfo, hrecent, harchive⟩ := h
  have hcopied (backup : List BackupRow) (hle : ∀ b ∈ backup, b.height ≤ height) (window : ℕ) :
      ∀ b ∈ prune (height + 1) window
        (backup ++ db.accrued.map (fun row => ⟨height + 1, row⟩)), b.height ≤ height + 1 := by
    intro b hb
    rcases mem_append.mp (mem_filter.mp hb).1 with hb | hb
    · exact (hle b hb).trans (by omega)
    · obtain ⟨row, _, rfl⟩ := mem_map.mp hb
      exact le_refl _
  refine ⟨by simp [Rewards.raised, hheight], by simp [Rewards.raised, hheight], ?_, ?_⟩
  · simp only [Rewards.raised, hheight]
    exact hcopied _ hrecent _
  · simp only [Rewards.raised, hheight]
    split
    · exact hcopied _ harchive _
    · exact fun b hb => (harchive b hb).trans (by omega)

/-! ## The same books -/

/-- The delayed payments that are still to come. -/
def pendingPayments (db : RewardsDb) : List DelayedPayment :=
  db.delayedPayments.filter (fun p => p.payoutHeight > db.height)

/-- One block higher the payments of that block are no longer to come. -/
theorem pendingPayments_raised (conf : NetworkConfig) (db : RewardsDb) :
    pendingPayments (raised conf db) =
      (pendingPayments db).filter (fun p => p.payoutHeight > db.height + 1) := by
  have hpending (payments : List DelayedPayment) :
      payments.filter (fun p => p.payoutHeight > db.height + 1) =
        (payments.filter (fun p => p.payoutHeight > db.height)).filter
          (fun p => p.payoutHeight > db.height + 1) :=
    (filter_filter_of_iff (by omega)).symm
  simp only [pendingPayments, raised]
  split
  · rw [← hpending]
    exact filter_filter_of_iff (by omega)
  · exact hpending _

/-- Two databases at a height with the same balances and the same payments to come.
The second one may have lost payments that were made long ago. -/
structure SameBooks (height : ℕ) (db db' : RewardsDb) : Prop where
  first : AtHeight height db
  second : AtHeight height db'
  accrued : db'.accrued = db.accrued
  pending : pendingPayments db' = pendingPayments db
  sublist : db'.delayedPayments.Sublist db.delayedPayments

namespace SameBooks

variable {height : ℕ} {db db' : RewardsDb}

/-- The same balances are written on both sides. -/
theorem write (h : SameBooks height db db') (accrued : List AccruedRow) :
    SameBooks height { db with accrued := accrued } { db' with accrued := accrued } where
  first := ⟨h.first.height_eq, h.first.infoHeight_eq, h.first.recent_le, h.first.archive_le⟩
  second := ⟨h.second.height_eq, h.second.infoHeight_eq, h.second.recent_le, h.second.archive_le⟩
  accrued := rfl
  pending := h.pending
  sublist := h.sublist

/-- The payments of a height to come are the same. -/
theorem delayed (h : SameBooks height db db') {payoutHeight : ℕ} (hlater : height < payoutHeight) :
    getDelayedPayments payoutHeight db' = getDelayedPayments payoutHeight db := by
  have hdue (books : RewardsDb) (hbooks : books.height = height) :
      books.delayedPayments.filter (fun p => p.payoutHeight = payoutHeight) =
        (pendingPayments books).filter (fun p => p.payoutHeight = payoutHeight) :=
    (filter_filter_of_iff (by omega)).symm
  rw [getDelayedPayments, getDelayedPayments, hdue db h.first.height_eq,
    hdue db' h.second.height_eq, h.pending]

/-- One block higher the books are still the same. -/
theorem raised (h : SameBooks height db db') (conf : NetworkConfig) :
    SameBooks (height + 1) (raised conf db) (raised conf db') where
  first := h.first.raised
  second := h.second.raised
  accrued := h.accrued
  pending := by
    rw [pendingPayments_raised, pendingPayments_raised, h.pending, h.first.height_eq,
      h.second.height_eq]
  sublist := by
    simp only [Rewards.raised, h.first.height_eq, h.second.height_eq]
    split
    · exact h.sublist.filter _
    · exact h.sublist

end SameBooks

/-! ## The payments of a block side by side -/

section

variable {height : ℕ}

theorem updateAccrued_lockstep {address : PayoutAddress} {f : AccruedRow → AccruedRow} :
    Lockstep (SameBooks height) (updateAccrued address f) (updateAccrued address f) := by
  intro db db' h
  simp only [updateAccrued, h.accrued]
  split
  · exact .error _ h
  · exact .ok _ (h.write _)

theorem upsertAccrued_lockstep {row : AccruedRow} {f : AccruedRow → AccruedRow} :
    Lockstep (SameBooks height) (upsertAccrued row f) (upsertAccrued row f) := by
  intro db db' h
  have hrow : accruedRow row.address db' = accruedRow row.address db := by
    rw [accruedRow, accruedRow, h.accrued]
  simp only [upsertAccrued, hrow]
  split
  · exact .error _ h
  · split
    · exact updateAccrued_lockstep db db' h
    · rw [h.accrued]
      exact .ok _ (h.write _)

theorem savePaymentRows_lockstep {payments : List BatchSnPayment} :
    Lockstep (SameBooks height) (savePaymentRows payments) (savePaymentRows payments) := by
  induction payments with
  | nil => exact .pure _
  | cons payment _ ih =>
    refine .get_bind fun db db' h => ?_
    have hrow : accruedRow (.oxen payment.1) db' = accruedRow (.oxen payment.1) db := by
      rw [accruedRow, accruedRow, h.accrued]
    rw [hrow]
    cases accruedRow (.oxen payment.1) db with
    | none => exact .ok _ h
    | some =>
      refine Lockstep.ite (fun _ => Lockstep.pure _) (fun _ => ?_) db db' h
      exact Lockstep.bind updateAccrued_lockstep fun _ => ih

theorem savePayments_lockstep {payments : List BatchSnPayment} :
    Lockstep (SameBooks height) (savePayments payments) (savePayments payments) := by
  refine .bind savePaymentRows_lockstep fun saved => ?_
  refine .ite (fun _ => ?_) fun _ => .pure _
  refine .bind (.modify (fun db db' h => ?_)) fun _ => .pure _
  rw [h.accrued]
  exact h.write _

variable (rules : RewardRules)

theorem addSnRewards_lockstep {hfVersion : Hf} {payments : BlockPayments} {isRewards : Bool} :
    Lockstep (SameBooks height) (addSnRewards rules hfVersion payments isRewards)
      (addSnRewards rules hfVersion payments isRewards) := by
  refine .forM fun entry _ => ?_
  refine .ite (fun _ => ?_) fun _ => ?_
  · exact .ite (fun _ => upsertAccrued_lockstep) fun _ => upsertAccrued_lockstep
  · split
    · exact .throw _
    · exact upsertAccrued_lockstep

theorem orDbThrow_lockstep {α : Type} (result : Except DbFault α) :
    Lockstep (SameBooks height) (orDbThrow result) (orDbThrow result) := by
  unfold orDbThrow
  split
  · exact .pure _
  · exact .throw _

/-- The rewards of the next block are the same, with the delayed payments it makes. -/
theorem rewardHandler_lockstep {block : Block} (hnext : height < block.height) (state : SnState)
    (payable : List PublicKey) :
    Lockstep (SameBooks height) (rewardHandler rules block state payable)
      (rewardHandler rules block state payable) := by
  refine .bind (orDbThrow_lockstep _) fun payments => ?_
  refine .get_bind fun db db' h => ?_
  rw [h.delayed hnext]
  revert h
  refine Lockstep.ite (fun _ => ?_) (fun _ => addSnRewards_lockstep rules) db db'
  exact Lockstep.bind (addSnRewards_lockstep rules) fun _ => addSnRewards_lockstep rules

theorem submitStakesMetadata_lockstep (blockAdd : BlockAddResult) :
    Lockstep (SameBooks height) (submitStakesMetadata blockAdd) (submitStakesMetadata blockAdd) := by
  refine .bind (.forM (fun _ _ => upsertAccrued_lockstep)) fun _ => ?_
  exact .forM fun _ _ => updateAccrued_lockstep

theorem payBlock_lockstep {input : BlockInput} (hnext : height < input.block.height)
    {payments : List BatchSnPayment} :
    Lockstep (SameBooks height) (payBlock rules input payments) (payBlock rules input payments) := by
  refine .bind ?_ fun valid => ?_
  · exact .ite (fun _ => .pure _) fun _ => savePayments_lockstep
  · refine .ite (fun _ => ?_) (fun _ => .pure _)
    refine .bind (rewardHandler_lockstep rules hnext _ _) fun _ => ?_
    refine .ite (fun _ => ?_) fun _ => .pure _
    exact .bind (submitStakesMetadata_lockstep _) fun _ => .pure _

end

end Xeqm.Rewards
