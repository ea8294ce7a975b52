import Xeqm.Rewards.Replay

/-!
# Restoring an earlier height

Runs of the rewards database: blocks with the delayed payments that are stored for
them, rejected blocks and detaches. Backups are dropped for whole heights only, and a
delayed payment that is still to come at a height is not dropped before the backups
of that height. A detach to a height with a backup therefore gives the books of that
height back.
-/

namespace Xeqm.Rewards

open Cryptonote Lib ServiceNodes List

/-! ## Blocks -/

/-- A block as the rewards database gets it. -/
structure ChainBlock where
  input : BlockInput
  /-- What the forks of the block do to the balances: the transition and `convert_hf22`. -/
  migrate : List AccruedRow → List AccruedRow := id
  /-- The calls of `add_delayed_payments` for the block. -/
  delayed : List (List DelayedPayment) := []
  delayed_height : ∀ payments ∈ delayed, ∀ p ∈ payments, p.height = input.block.height

/-- Stores the delayed payments of a block, if every call accepts them. A call that does so is the
same inside a rescan. -/
def storeDelayed : List (List DelayedPayment) → RewardsDb → Option RewardsDb
  | [], db => some db
  | payments :: rest, db =>
    if (addDelayedPayments false payments db).2 then
      storeDelayed rest (addDelayedPayments false payments db).1
    else none

/-- Adds the next block with its delayed payments, if everything is accepted. -/
def addChainBlock (rules : RewardRules) (rescanning : Bool) (b : ChainBlock) (db : RewardsDb) :
    Option RewardsDb :=
  if b.input.block.height = db.height + 1 then
    (storeDelayed b.delayed { db with accrued := b.migrate db.accrued }).bind (fun db =>
      match addBlock rules rescanning b.input db with
      | .ok true db' => some db'
      | _ => none)
  else none

/-- Adds blocks one after the other, each inside a rescan or not. -/
def addChain (rules : RewardRules) : List (Bool × ChainBlock) → RewardsDb → Option RewardsDb
  | [], db => some db
  | (rescanning, b) :: rest, db => (addChainBlock rules rescanning b db).bind (addChain rules rest)

variable {calls : List (List DelayedPayment)}

theorem storeDelayed_cons {payments : List DelayedPayment} {rest : List (List DelayedPayment)}
    {db : RewardsDb} :
    storeDelayed (payments :: rest) db =
      if insertedDelayed db.delayedPayments payments = payments then
        storeDelayed rest { db with delayedPayments := db.delayedPayments ++ payments }
      else none := by
  simp only [storeDelayed, addDelayedPayments]
  split <;> simp_all

theorem storeDelayed_eq_some {db db' : RewardsDb}
    (h : storeDelayed calls db = some db') :
    db' = { db with delayedPayments := db.delayedPayments ++ calls.flatten } := by
  induction calls generalizing db with
  | nil => simpa [storeDelayed] using h.symm
  | cons payments rest ih =>
    rw [storeDelayed_cons] at h
    split at h
    · simpa using ih h
    · cases h

/-- Where fewer payments are stored, the same payments are inserted. -/
theorem insertedDelayed_of_sublist {stored stored' payments : List DelayedPayment}
    (hsub : stored'.Sublist stored) (h : insertedDelayed stored payments = payments) :
    insertedDelayed stored' payments = payments := by
  induction payments generalizing stored stored' with
  | nil => rfl
  | cons p rest ih =>
    unfold insertedDelayed at h ⊢
    split at h
    · cases h
    · rename_i hnew
      rw [if_neg fun hmem => hnew ((hsub.map _).subset hmem)]
      exact congrArg _ (ih (hsub.append (.refl [p])) (cons.inj h).2)

/-- Where fewer payments are stored, the same calls are accepted. -/
theorem storeDelayed_of_sublist {db db' e : RewardsDb}
    (hsub : db'.delayedPayments.Sublist db.delayedPayments) (h : storeDelayed calls db = some e) :
    ∃ e', storeDelayed calls db' = some e' := by
  induction calls generalizing db db' with
  | nil => exact ⟨db', rfl⟩
  | cons payments rest ih =>
    rw [storeDelayed_cons] at h ⊢
    split at h
    · rename_i haccepted
      rw [if_pos (insertedDelayed_of_sublist hsub haccepted)]
      exact ih (hsub.append (.refl payments)) h
    · cases h

/-- The first block of reward batching finds empty tables. -/
def begun (rules : RewardRules) (input : BlockInput) (db : RewardsDb) : RewardsDb :=
  if ¬ input.block.majorVersion < Hf.hf19RewardBatching ∧
      input.block.height = (hardForkBegins rules.net Hf.hf19RewardBatching).getD 0 then
    { height := db.height, infoHeight := db.height }
  else db

/-- The payouts and the rewards of a block, of which there are none before reward
batching. -/
def payInput (rules : RewardRules) (input : BlockInput) : DbM Bool :=
  if input.block.majorVersion < Hf.hf19RewardBatching then pure true
  else do
    let db ← get
    let payments ← orDbThrow (duePayments rules input.block db)
    payBlock rules input payments

section

variable {rules : RewardRules} {input : BlockInput} {rescanning : Bool} {height : ℕ}
  {db db' : RewardsDb}

theorem AtHeight.onlyAccrued (h : AtHeight height db) (hsame : OnlyAccrued db db') :
    AtHeight height db' := by
  rw [hsame]
  exact ⟨h.height_eq, h.infoHeight_eq, h.recent_le, h.archive_le⟩

theorem AtHeight.begun (h : AtHeight height db) : AtHeight height (begun rules input db) := by
  unfold Rewards.begun
  split
  · exact ⟨h.height_eq, h.height_eq, by simp, by simp⟩
  · exact h

theorem payInput_onlyAccrued : Keeps OnlyAccrued (payInput rules input) := by
  refine .pure_ite fun _ => ?_
  refine .read fun _ => ?_
  exact .bind (orDbThrow_keeps _) fun _ => payBlock_onlyAccrued rules _ _

theorem updateHeight_empty (conf : NetworkConfig) (newHeight : ℕ) :
    updateHeight conf newHeight {} = .ok () { height := newHeight, infoHeight := newHeight } := by
  by_cases hpos : 0 < newHeight
  · by_cases hinterval : newHeight % conf.historyArchiveInterval = 0 <;>
      simp [updateHeight, setInfoHeight, hpos, hinterval, copyAccrued, prune]
  · obtain rfl : newHeight = 0 := by omega
    rfl

theorem beginBatching_run :
    beginBatching rules height db = .ok ()
      (if height = (hardForkBegins rules.net Hf.hf19RewardBatching).getD 0 then
        { height := height - 1, infoHeight := height - 1 } else db) := by
  have hreset : resetDatabase rules.config db = .ok () {} := rfl
  unfold beginBatching
  split
  · rw [bind_run_of_ok hreset, updateHeight_empty]
  · rfl

/-- The body of the `try` block completes where the payments do. -/
theorem runBody_eq_true_iff (h : AtHeight height db) {payments : List BatchSnPayment} :
    runBody rescanning (addBlockBody rules input payments) db = .ok true db' ↔
      ∃ paid, payBlock rules input payments db = .ok true paid ∧ db' = raised rules.config paid := by
  have hpaid := payBlock_onlyAccrued rules input payments db
  rw [runBody, addBlockBody_eq]
  cases hpay : payBlock rules input payments db with
  | error => simp [bind_run_of_error hpay]
  | ok valid =>
    rw [hpay, finalState_ok] at hpaid
    have hat := h.onlyAccrued hpaid
    rw [bind_run_of_ok hpay]
    cases valid with
    | false => simp
    | true =>
      have hwrite := @updateHeight_raised rules.config _ _ hat
      rw [← hat.height_eq] at hwrite
      rw [if_pos rfl, get_bind_run, bind_run_of_ok hwrite]
      simp [eq_comm]

/-- `add_block` accepts the next block where its payments do. -/
theorem addBlock_eq_true_iff (h : AtHeight height db) (hnext : input.block.height = height + 1) :
    addBlock rules rescanning input db = .ok true db' ↔
      ∃ paid, payInput rules input (begun rules input db) = .ok true paid ∧
        db' = raised rules.config paid := by
  have hat : AtHeight height (begun rules input db) := h.begun
  unfold addBlock payInput
  by_cases hbatching : input.block.majorVersion < Hf.hf19RewardBatching
  · have hsame : begun rules input db = db := by simp [begun, hbatching]
    simp only [if_pos hbatching, hnext, hsame, bind_run_of_ok (updateHeight_raised h), pure_run]
    simp [eq_comm]
  · have hbegin : beginBatching rules input.block.height db = .ok () (begun rules input db) := by
      rw [hnext, beginBatching_run]
      simp [begun, hbatching, hnext, h.height_eq]
    simp only [if_neg hbatching]
    rw [bind_run_of_ok hbegin, get_bind_run, get_bind_run, hat.height_eq, hnext]
    simp only [ne_eq, not_true_eq_false, if_false]
    cases hdue : duePayments rules input.block (begun rules input db) with
    | error => simp [orDbThrow]
    | ok =>
      exact runBody_eq_true_iff hat

/-- The database a block is paid from. -/
def prepared (rules : RewardRules) (b : ChainBlock) (db : RewardsDb) : Option RewardsDb :=
  (storeDelayed b.delayed { db with accrued := b.migrate db.accrued }).map (begun rules b.input)

variable {b : ChainBlock} {db₀ : RewardsDb}

/-- What was stored before a block is paid. -/
theorem prepared_cases (h : prepared rules b db = some db₀) :
    (db₀ = { db with
      accrued := b.migrate db.accrued
      delayedPayments := db.delayedPayments ++ b.delayed.flatten }) ∨
      db₀ = { height := db.height, infoHeight := db.height } := by
  obtain ⟨stored, hstore, rfl⟩ := Option.map_eq_some_iff.mp h
  obtain rfl := storeDelayed_eq_some hstore
  unfold begun
  split
  · exact .inr rfl
  · exact .inl rfl

theorem AtHeight.prepared (h : AtHeight height db)
    (hprepared : prepared rules b db = some db₀) : AtHeight height db₀ := by
  rcases prepared_cases hprepared with rfl | rfl
  · exact ⟨h.height_eq, h.infoHeight_eq, h.recent_le, h.archive_le⟩
  · exact ⟨h.height_eq, h.height_eq, by simp, by simp⟩

/-- A block is added by storing its delayed payments, paying and raising the height. -/
theorem addChainBlock_eq_some_iff (h : AtHeight height db) :
    addChainBlock rules rescanning b db = some db' ↔
      b.input.block.height = height + 1 ∧ ∃ db₀ paid, prepared rules b db = some db₀ ∧
        payInput rules b.input db₀ = .ok true paid ∧ db' = raised rules.config paid := by
  obtain rfl := h.height_eq
  unfold addChainBlock prepared
  by_cases hnext : b.input.block.height = db.height + 1
  · rw [if_pos hnext]
    cases hstore : storeDelayed b.delayed { db with accrued := b.migrate db.accrued } with
    | none => simp
    | some stored =>
      have hat : AtHeight db.height stored := by
        rw [storeDelayed_eq_some hstore]
        exact ⟨rfl, h.infoHeight_eq, h.recent_le, h.archive_le⟩
      simp only [Option.bind_some, Option.map_some, Option.some.injEq, hnext, true_and,
        exists_and_left, exists_eq_left',
        ← @addBlock_eq_true_iff rules b.input rescanning _ _ _ hat hnext]
      split <;> simp_all
  · simp [hnext]

/-- A block that is added raises the height by one. -/
theorem AtHeight.addChainBlock (h : AtHeight height db)
    (hadd : addChainBlock rules rescanning b db = some db') : AtHeight (height + 1) db' := by
  obtain ⟨_, db₀, paid, hprepared, hpay, rfl⟩ := (addChainBlock_eq_some_iff h).mp hadd
  exact ((h.prepared hprepared).onlyAccrued (payInput_onlyAccrued.of_ok hpay)).raised

/-! ## Adding a block to the same books -/

theorem SameBooks.prepared (h : SameBooks height db db')
    (hprepared : prepared rules b db = some db₀) :
    ∃ db₀', Rewards.prepared rules b db' = some db₀' ∧ SameBooks height db₀ db₀' := by
  obtain ⟨stored, hstore, rfl⟩ := Option.map_eq_some_iff.mp hprepared
  obtain ⟨stored', hstore'⟩ :=
    @storeDelayed_of_sublist _ { db with accrued := b.migrate db.accrued }
      { db' with accrued := b.migrate db'.accrued } _ h.sublist hstore
  refine ⟨begun rules b.input stored', by rw [Rewards.prepared, hstore', Option.map_some], ?_⟩
  obtain rfl := storeDelayed_eq_some hstore
  obtain rfl := storeDelayed_eq_some hstore'
  have hheight := h.first.height_eq
  have hheight' := h.second.height_eq
  have hsame : SameBooks height
      { db with
        accrued := b.migrate db.accrued
        delayedPayments := db.delayedPayments ++ b.delayed.flatten }
      { db' with
        accrued := b.migrate db'.accrued
        delayedPayments := db'.delayedPayments ++ b.delayed.flatten } := by
    refine ⟨⟨hheight, h.first.infoHeight_eq, h.first.recent_le, h.first.archive_le⟩,
      ⟨hheight', h.second.infoHeight_eq, h.second.recent_le, h.second.archive_le⟩,
      congrArg b.migrate h.accrued, ?_, h.sublist.append (.refl _)⟩
    have hpending := h.pending
    simp only [pendingPayments, filter_append, hheight, hheight'] at hpending ⊢
    rw [hpending]
  unfold begun
  split
  · rw [hheight, hheight']
    exact ⟨⟨rfl, rfl, by simp, by simp⟩, ⟨rfl, rfl, by simp, by simp⟩, rfl, rfl, .refl _⟩
  · exact hsame

theorem payInput_lockstep (hnext : input.block.height = height + 1) :
    Lockstep (SameBooks height) (payInput rules input) (payInput rules input) := by
  refine .ite (fun _ => .pure _) fun _ => ?_
  refine Lockstep.get_bind fun db db' h => ?_
  have hdue : duePayments rules input.block db' = duePayments rules input.block db := by
    unfold duePayments getSnPayments
    rw [h.accrued]
  rw [hdue]
  refine Lockstep.bind (orDbThrow_lockstep _) (fun payments => ?_) db db' h
  exact payBlock_lockstep rules (by omega)

/-- A block does the same to the same books, whether inside a rescan or not. -/
theorem SameBooks.addChainBlock (h : SameBooks height db db') {e : RewardsDb}
    (hadd : addChainBlock rules rescanning b db = some e) (rescanning' : Bool) :
    ∃ e', Rewards.addChainBlock rules rescanning' b db' = some e' ∧
      SameBooks (height + 1) e e' := by
  obtain ⟨hnext, db₀, paid, hprepared, hpay, rfl⟩ := (addChainBlock_eq_some_iff h.first).mp hadd
  obtain ⟨db₀', hprepared', h₀⟩ := h.prepared hprepared
  obtain ⟨paid', hpay', hpaid⟩ := (payInput_lockstep hnext).of_ok h₀ hpay
  refine ⟨Rewards.raised rules.config paid', ?_, hpaid.raised rules.config⟩
  exact (addChainBlock_eq_some_iff h.second).mpr ⟨hnext, db₀', paid', hprepared', hpay', rfl⟩

/-- Blocks do the same to the same books. -/
theorem SameBooks.addChain (h : SameBooks height db db') {blocks blocks' : List (Bool × ChainBlock)}
    {e : RewardsDb} (hsame : blocks'.map Prod.snd = blocks.map Prod.snd)
    (hadd : addChain rules blocks db = some e) :
    ∃ e', Rewards.addChain rules blocks' db' = some e' ∧ SameBooks e.height e e' := by
  induction blocks generalizing blocks' height db db' with
  | nil =>
    obtain rfl : blocks' = [] := by simpa using hsame
    obtain rfl : db = e := by simpa [Rewards.addChain] using hadd
    exact ⟨db', rfl, h.first.height_eq.symm ▸ h⟩
  | cons block _ ih =>
    obtain ⟨rescanning, b⟩ := block
    obtain ⟨⟨rescanning', b'⟩, rest', rfl, hb, hrest⟩ := map_eq_cons_iff.mp hsame
    obtain rfl : b' = b := hb
    obtain ⟨db₁, hfirst, hadd⟩ := Option.bind_eq_some_iff.mp hadd
    obtain ⟨db₁', hfirst', h₁⟩ := h.addChainBlock hfirst rescanning'
    obtain ⟨e', hadd', he⟩ := ih h₁ hrest hadd
    exact ⟨e', Option.bind_eq_some_iff.mpr ⟨db₁', hfirst', hadd'⟩, he⟩

end

/-! ## What the backups hold -/

section

variable {backup : List BackupRow} {accrued : List AccruedRow} {height window k : ℕ}

/-- The balances are found again at the height they were copied for. -/
theorem backupRows_copied (hfresh : ∀ b ∈ backup, b.height ≠ height) :
    backupRows (prune height window (backup ++ accrued.map (fun row => ⟨height, row⟩))) height =
      accrued := by
  have hold : (backup.filter (fun b => height ≤ b.height + window)).filter
      (fun b => b.height = height) = [] := by
    rw [filter_eq_nil_iff]
    intro b hb
    simpa using hfresh b (mem_of_mem_filter hb)
  rw [backupRows, prune, filter_append, filter_append, hold]
  simp [filter_map, Function.comp_def]

/-- The copy for a height leaves or drops the backup of any other height. -/
theorem backupRows_copied_of_ne (hk : k ≠ height) :
    backupRows (prune height window (backup ++ accrued.map (fun row => ⟨height, row⟩))) k =
        backupRows backup k ∨
      backupRows (prune height window (backup ++ accrued.map (fun row => ⟨height, row⟩))) k = [] := by
  have hcopy : ((accrued.map (fun row => (⟨height, row⟩ : BackupRow))).filter
      (fun b => height ≤ b.height + window)).filter (fun b => b.height = k) = [] := by
    simp [hk.symm]
  rw [backupRows, backupRows, prune, filter_append, filter_append, hcopy, append_nil]
  by_cases hwindow : height ≤ k + window
  · left
    exact congrArg _ (filter_filter_of_iff (by omega))
  · right
    rw [filter_filter, map_eq_nil_iff, filter_eq_nil_iff]
    intro b _
    simp only [Bool.and_eq_true, decide_eq_true_eq]
    omega

/-- A backup below the height is still there after a detach. -/
theorem backupRows_below (hk : k ≤ height) :
    backupRows (backup.filter (fun b => b.height ≤ height)) k = backupRows backup k :=
  congrArg _ (filter_filter_of_iff (by omega))

theorem backupRows_above (habove : ∀ b ∈ backup, b.height ≤ height) (hk : height < k) :
    backupRows backup k = [] := by
  rw [backupRows, map_eq_nil_iff, filter_eq_nil_iff]
  intro b hb
  have := habove b hb
  simp only [decide_eq_true_eq]
  omega

theorem backupRows_ne_nil (h : backup.any (fun b => b.height = k) = true) :
    backupRows backup k ≠ [] := by
  obtain ⟨b, hb, hk⟩ := any_eq_true.mp h
  exact ne_nil_of_mem (mem_map_of_mem (mem_filter.mpr ⟨hb, hk⟩))

end

section

variable {rules : RewardRules} {conf : NetworkConfig} {rescanning : Bool} {b : ChainBlock}
  {height k : ℕ} {db db' : RewardsDb}

section

variable (h : AtHeight height db)

include h

theorem raised_recent_of_le (hk : k ≤ height) :
    backupRows (raised conf db).recent k = backupRows db.recent k ∨
      backupRows (raised conf db).recent k = [] := by
  simp only [raised, h.height_eq]
  exact backupRows_copied_of_ne (by omega)

theorem raised_archive_of_le (hk : k ≤ height) :
    backupRows (raised conf db).archive k = backupRows db.archive k ∨
      backupRows (raised conf db).archive k = [] := by
  simp only [raised, h.height_eq]
  split
  · exact backupRows_copied_of_ne (by omega)
  · exact .inl rfl

theorem raised_recent_self : backupRows (raised conf db).recent (height + 1) = db.accrued := by
  simp only [raised, h.height_eq]
  exact backupRows_copied fun b hb => (Nat.lt_succ_of_le (h.recent_le b hb)).ne

theorem raised_archive_self :
    backupRows (raised conf db).archive (height + 1) = [] ∨
      backupRows (raised conf db).archive (height + 1) = db.accrued := by
  simp only [raised, h.height_eq]
  split
  · exact .inr (backupRows_copied (fun b hb => (Nat.lt_succ_of_le (h.archive_le b hb)).ne))
  · exact .inl (backupRows_above h.archive_le (Nat.lt_succ_self _))

end

/-- Where both tables have a backup of a height, it is the same. -/
def BackupsAgree (db : RewardsDb) : Prop :=
  ∀ k, backupRows db.recent k = [] ∨ backupRows db.archive k = [] ∨
    backupRows db.recent k = backupRows db.archive k

/-- The backups of a database in a run: those of its height are its balances. -/
structure Consistent (db : RewardsDb) : Prop where
  atHeight : AtHeight db.height db
  delayed_le : ∀ p ∈ db.delayedPayments, p.height ≤ db.height
  recent_now : backupRows db.recent db.height = [] ∨ backupRows db.recent db.height = db.accrued
  archive_now : backupRows db.archive db.height = [] ∨ backupRows db.archive db.height = db.accrued
  agree : BackupsAgree db

theorem consistent_empty (height : ℕ) : Consistent { height := height, infoHeight := height } :=
  ⟨⟨rfl, rfl, by simp, by simp⟩, by simp, .inl rfl, .inl rfl, fun _ => .inl rfl⟩

/-- One block higher the backups agree with the balances. -/
theorem consistent_raised (hat : AtHeight height db)
    (hdelayed : ∀ p ∈ db.delayedPayments, p.height ≤ height + 1) (hagree : BackupsAgree db) :
    Consistent (raised conf db) := by
  have hheight : (raised conf db).height = height + 1 := hat.raised.height_eq
  refine ⟨hheight.symm ▸ hat.raised, ?_, ?_, ?_, ?_⟩
  · intro p hp
    rw [hheight]
    simp only [raised] at hp
    split at hp
    · exact hdelayed p (mem_of_mem_filter hp)
    · exact hdelayed p hp
  · rw [hheight]
    exact .inr (raised_recent_self hat)
  · rw [hheight]
    exact raised_archive_self hat
  · intro k
    rcases Nat.lt_trichotomy k (height + 1) with hk | rfl | hk
    · rcases @raised_recent_of_le conf _ _ _ hat (Nat.le_of_lt_succ hk) with hrecent | hrecent
      · rcases @raised_archive_of_le conf _ _ _ hat (Nat.le_of_lt_succ hk) with harchive | harchive
        · rw [hrecent, harchive]
          exact hagree k
        · exact .inr (.inl harchive)
      · exact .inl hrecent
    · rw [raised_recent_self hat]
      rcases @raised_archive_self conf _ _ hat with harchive | harchive
      · exact .inr (.inl harchive)
      · exact .inr (.inr harchive.symm)
    · exact .inl (backupRows_above hat.raised.recent_le hk)

/-- A block that is added keeps the backups consistent. -/
theorem Consistent.addChainBlock (h : Consistent db)
    (hadd : addChainBlock rules rescanning b db = some db') : Consistent db' := by
  have hat := h.atHeight
  obtain ⟨hnext, db₀, paid, hprepared, hpay, rfl⟩ := (addChainBlock_eq_some_iff hat).mp hadd
  have hpaid : OnlyAccrued db₀ paid := payInput_onlyAccrued.of_ok hpay
  refine consistent_raised ((hat.prepared hprepared).onlyAccrued hpaid) ?_ ?_
  · rw [hpaid]
    rcases prepared_cases hprepared with rfl | rfl
    · intro p hp
      rcases mem_append.mp hp with hp | hp
      · exact (h.delayed_le p hp).trans (Nat.le_succ _)
      · obtain ⟨payments, hpayments, hp⟩ := mem_flatten.mp hp
        rw [b.delayed_height payments hpayments p hp, hnext]
    · simp
  · rw [hpaid]
    rcases prepared_cases hprepared with rfl | rfl
    · exact h.agree
    · exact fun _ => .inl rfl

/-! ## Detaching -/

/-- The table has a backup of a height. -/
def CanRestore (table : PaymentTableType) (height : ℕ) (db : RewardsDb) : Prop :=
  match table with
  | .nil => False
  | .recent => batchPaymentsAccruedHasAny db true height = true
  | .archive => batchPaymentsAccruedHasAny db false height = true

/-- The rows a detach takes its balances from. -/
def restoredRows (table : PaymentTableType) (height : ℕ) (db : RewardsDb) : List AccruedRow :=
  match table with
  | .nil => []
  | .recent => backupRows db.recent height
  | .archive => backupRows db.archive height

/-- The database at a lower height. -/
def lowered (accrued : List AccruedRow) (height : ℕ) (db : RewardsDb) : RewardsDb where
  height := height
  infoHeight := height
  accrued := accrued
  recent := db.recent.filter (fun b => b.height ≤ height)
  archive := db.archive.filter (fun b => b.height ≤ height)
  delayedPayments := db.delayedPayments.filter (fun p => p.height ≤ height)

/-- A detach to the height of the database does nothing. -/
theorem blockchainDetached_same (h : AtHeight height db) (table : PaymentTableType) :
    blockchainDetached conf table height db = .ok () db := by
  obtain ⟨rfl, hinfo, -, -⟩ := h
  have hsame : { db with infoHeight := db.height } = db := by
    cases db
    simp_all
  simp [blockchainDetached, updateHeight, setInfoHeight, hinfo, hsame]

/-- A detach to a lower height restores a backup or resets the tables. -/
theorem blockchainDetached_below (h : AtHeight height db) (hk : k < height)
    (table : PaymentTableType) :
    blockchainDetached conf table k db = .ok ()
      (if table = .nil then { height := k, infoHeight := k }
      else lowered (restoredRows table k db) k db) := by
  have hne : ¬ k = db.height := by
    rw [h.height_eq]
    omega
  have hwrite (accrued : List AccruedRow) :
      updateHeight conf k { db with accrued := accrued } = .ok () (lowered accrued k db) := by
    have hlt : k < db.infoHeight := by
      rw [h.infoHeight_eq]
      exact hk
    simp [updateHeight, setInfoHeight, hlt, hlt.not_gt, lowered]
  unfold blockchainDetached
  rw [get_bind_run, if_neg hne]
  cases table with
  | nil =>
    have hreset : resetDatabase conf db = .ok () {} := rfl
    exact (bind_run_of_ok hreset).trans (updateHeight_empty conf k)
  | recent => exact hwrite _
  | archive => exact hwrite _

theorem backupRows_lowered {backup : List BackupRow} (hk : k ≠ height) :
    backupRows (backup.filter (fun b => b.height ≤ height)) k = backupRows backup k ∨
      backupRows (backup.filter (fun b => b.height ≤ height)) k = [] := by
  rcases Nat.lt_or_gt_of_ne hk with hk | hk
  · exact .inl (backupRows_below hk.le)
  · refine .inr (backupRows_above (fun b hb => ?_) hk)
    simpa using of_mem_filter hb

/-- A detach to a height that a table holds, or that neither of them holds, keeps the
backups consistent. -/
theorem Consistent.detached (h : Consistent db) {table : PaymentTableType} (hk : k ≤ db.height)
    (hcan : k = db.height ∨ table = .nil ∨ CanRestore table k db ∨
      (backupRows db.recent k = [] ∧ backupRows db.archive k = []))
    (hrun : blockchainDetached conf table k db = .ok () db') : Consistent db' := by
  have hat := h.atHeight
  by_cases heq : k = db.height
  · subst heq
    rw [blockchainDetached_same hat] at hrun
    cases hrun
    exact h
  rw [blockchainDetached_below hat (by omega)] at hrun
  cases hrun
  by_cases hnil : table = .nil
  · rw [if_pos hnil]
    exact consistent_empty k
  rw [if_neg hnil]
  -- the restored rows are those of both tables, as far as they have any
  have hnow : (backupRows db.recent k = [] ∨ backupRows db.recent k = restoredRows table k db) ∧
      (backupRows db.archive k = [] ∨ backupRows db.archive k = restoredRows table k db) := by
    rcases hcan with hcan | hcan | hcan | hcan
    · exact absurd hcan heq
    · exact absurd hcan hnil
    · have hagree := h.agree k
      cases table with
      | nil => exact absurd rfl hnil
      | recent =>
        have hrows := backupRows_ne_nil hcan
        rcases hagree with hagree | hagree | hagree
        · exact absurd hagree hrows
        · exact ⟨.inr rfl, .inl hagree⟩
        · exact ⟨.inr rfl, .inr hagree.symm⟩
      | archive =>
        have hrows := backupRows_ne_nil hcan
        rcases hagree with hagree | hagree | hagree
        · exact ⟨.inl hagree, .inr rfl⟩
        · exact absurd hagree hrows
        · exact ⟨.inr hagree, .inr rfl⟩
    · exact ⟨.inl hcan.1, .inl hcan.2⟩
  refine ⟨⟨rfl, rfl, by simp [lowered], by simp [lowered]⟩, by simp [lowered], ?_, ?_, ?_⟩
  · simp only [lowered, backupRows_below (le_refl k)]
    exact hnow.1
  · simp only [lowered, backupRows_below (le_refl k)]
    exact hnow.2
  · intro j
    simp only [lowered]
    by_cases hj : j = k
    · subst hj
      rw [backupRows_below (le_refl j), backupRows_below (le_refl j)]
      exact h.agree j
    · rcases backupRows_lowered hj with hrecent | hrecent
      · rcases backupRows_lowered hj with harchive | harchive
        · rw [hrecent, harchive]
          exact h.agree j
        · exact .inr (.inl harchive)
      · exact .inl hrecent

/-! ## Runs -/

/-- The databases that a run from an empty one reaches. Blocks are accepted with their
delayed payments, or rejected outside a rescan; the first block of reward batching is
not rejected. A detach goes to a height that the table holds, or resets. -/
inductive DbRun (rules : RewardRules) : RewardsDb → Prop
  | start : DbRun rules {}
  | block {db db' : RewardsDb} {rescanning : Bool} {b : ChainBlock} (hrun : DbRun rules db)
      (hadd : addChainBlock rules rescanning b db = some db') : DbRun rules db'
  | rejected {db : RewardsDb} {input : BlockInput} (hrun : DbRun rules db)
      (hbegins : input.block.height ≠ (hardForkBegins rules.net Hf.hf19RewardBatching).getD 0)
      (hbatching : ¬ input.block.majorVersion < Hf.hf19RewardBatching)
      (hreject : ∀ db', addBlock rules false input db ≠ .ok true db') :
      DbRun rules (finalState (addBlock rules false input db))
  | detached {db db' : RewardsDb} {table : PaymentTableType} {k : ℕ} (hrun : DbRun rules db)
      (hk : k ≤ db.height)
      (hcan : k = db.height ∨ table = .nil ∨ CanRestore table k db ∨
        (backupRows db.recent k = [] ∧ backupRows db.archive k = []))
      (hdetach : blockchainDetached rules.config table k db = .ok () db') : DbRun rules db'

/-- A block that is rejected outside a rescan leaves the database as it was. -/
theorem Consistent.rejected (h : Consistent db) {input : BlockInput}
    (hbegins : input.block.height ≠ (hardForkBegins rules.net Hf.hf19RewardBatching).getD 0)
    (hbatching : ¬ input.block.majorVersion < Hf.hf19RewardBatching)
    (hreject : ∀ db', addBlock rules false input db ≠ .ok true db') :
    finalState (addBlock rules false input db) = db := by
  have hfresh {backup : List BackupRow} (hle : ∀ b ∈ backup, b.height ≤ db.height) :
      ∀ b ∈ backup, b.height ≠ db.height + 1 := fun b hb => (Nat.lt_succ_of_le (hle b hb)).ne
  have hbegin : beginBatching rules input.block.height db = .ok () db := by
    rw [beginBatching, if_neg hbegins, pure_run]
  simp only [addBlock, if_neg hbatching, bind_run_of_ok hbegin, get_bind_run] at hreject ⊢
  split
  · rfl
  rename_i hnext
  rw [if_neg hnext] at hreject
  cases hdue : duePayments rules input.block db with
  | error => rfl
  | ok payments =>
    simp only [hdue, orDbThrow, pure_bind] at hreject ⊢
    cases hbody : runBody false (addBlockBody rules input payments) db with
    | error =>
      unfold runBody at hbody
      split at hbody <;> cases hbody
    | ok accepted db' =>
      cases accepted with
      | true => exact absurd hbody (hreject db')
      | false =>
        exact runBody_rejected (hfresh h.atHeight.recent_le) (hfresh h.atHeight.archive_le) hbody

/-- The backups are consistent in every run. -/
theorem DbRun.consistent (hrun : DbRun rules db) : Consistent db := by
  induction hrun with
  | start => exact consistent_empty 0
  | block _ hadd ih => exact ih.addChainBlock hadd
  | rejected _ hbegins hbatching hreject ih =>
    rw [ih.rejected hbegins hbatching hreject]
    exact ih
  | detached _ hk hcan hdetach ih => exact ih.detached hk hcan hdetach

/-! ## What is left of an earlier height -/

/-- No backup of a height is left. -/
def Forgotten (k : ℕ) (db : RewardsDb) : Prop :=
  backupRows db.recent k = [] ∧ backupRows db.archive k = []

/-- What a later database holds of a start: the backups of its height are its balances,
and its delayed payments are there but for those that were dropped at a height which
the backups have survived. -/
structure Remembers (conf : NetworkConfig) (start db : RewardsDb) : Prop where
  recent : backupRows db.recent start.height = [] ∨
    backupRows db.recent start.height = start.accrued
  archive : backupRows db.archive start.height = [] ∨
    backupRows db.archive start.height = start.accrued
  delayed : ∃ dropped ≤ db.height,
    (∀ b ∈ db.recent, dropped ≤ b.height + conf.historyArchiveKeepWindow) ∧
    (∀ b ∈ db.archive, dropped ≤ b.height + conf.historyArchiveKeepWindow) ∧
    db.delayedPayments.filter (fun p => p.height ≤ start.height) =
      start.delayedPayments.filter
        (fun p => dropped ≤ p.payoutHeight + conf.historyArchiveKeepWindow)

theorem Consistent.remembers (h : Consistent db) (conf : NetworkConfig) : Remembers conf db db := by
  refine ⟨h.recent_now, h.archive_now, 0, Nat.zero_le _, by simp, by simp, ?_⟩
  refine filter_congr fun p hp => ?_
  simpa using h.delayed_le p hp

theorem config_windows (rules : RewardRules) :
    rules.config.historyRecentKeepWindow ≤ rules.config.historyArchiveKeepWindow := by
  unfold RewardRules.config
  cases rules.net.nettype <;> decide

variable {start : RewardsDb}

theorem Remembers.onlyAccrued (h : Remembers conf start db) (hsame : OnlyAccrued db db') :
    Remembers conf start db' := by
  rw [hsame]
  exact ⟨h.recent, h.archive, h.delayed⟩

/-- Payments of later blocks do not count. -/
theorem Remembers.stored (h : Remembers conf start db) (accrued : List AccruedRow)
    {payments : List DelayedPayment} (hlater : ∀ p ∈ payments, start.height < p.height) :
    Remembers conf start { db with
      accrued := accrued, delayedPayments := db.delayedPayments ++ payments } := by
  refine ⟨h.recent, h.archive, ?_⟩
  obtain ⟨dropped, hdropped, hrecent, harchive, hdelayed⟩ := h.delayed
  refine ⟨dropped, hdropped, hrecent, harchive, ?_⟩
  have hnone : payments.filter (fun p => p.height ≤ start.height) = [] := by
    rw [filter_eq_nil_iff]
    intro p hp
    simpa using hlater p hp
  rw [filter_append, hnone, append_nil, hdelayed]

/-- One block higher the backups are kept or dropped as a whole, and no payment is
dropped that was still to come where a backup is kept. -/
theorem Remembers.raised (h : Remembers conf start db) (hat : AtHeight height db)
    (hle : start.height ≤ height)
    (hwindows : conf.historyRecentKeepWindow ≤ conf.historyArchiveKeepWindow) :
    Remembers conf start (raised conf db) := by
  obtain ⟨dropped, hdropped, _, harchive, hdelayed⟩ := h.delayed
  rw [hat.height_eq] at hdropped
  have hrecent : ∀ b ∈ (Rewards.raised conf db).recent,
      height + 1 ≤ b.height + conf.historyArchiveKeepWindow := by
    intro b hb
    simp only [Rewards.raised, prune, hat.height_eq] at hb
    have := (mem_filter.mp hb).2
    rw [decide_eq_true_eq] at this
    omega
  refine ⟨?_, ?_, ?_⟩
  · rcases @raised_recent_of_le conf _ _ _ hat hle with hrows | hrows
    · rw [hrows]
      exact h.recent
    · exact .inl hrows
  · rcases @raised_archive_of_le conf _ _ _ hat hle with hrows | hrows
    · rw [hrows]
      exact h.archive
    · exact .inl hrows
  by_cases harchives : isArchiveHeight conf (height + 1) = true
  · refine ⟨height + 1, hat.raised.height_eq.ge, hrecent, ?_, ?_⟩
    · intro b hb
      simp only [Rewards.raised, prune, hat.height_eq, if_pos harchives] at hb
      exact of_decide_eq_true (mem_filter.mp hb).2
    · simp only [Rewards.raised, hat.height_eq, if_pos harchives]
      rw [filter_comm, hdelayed]
      exact filter_filter_of_iff (by omega)
  · refine ⟨dropped, ?_, fun b hb => ?_, ?_, ?_⟩
    · rw [hat.raised.height_eq]
      omega
    · have := hrecent b hb
      omega
    · simpa only [Rewards.raised, hat.height_eq, if_neg harchives] using harchive
    · simpa only [Rewards.raised, hat.height_eq, if_neg harchives] using hdelayed

theorem Forgotten.raised (h : Forgotten k db) (hat : AtHeight height db) (hle : k ≤ height) :
    Forgotten k (raised conf db) := by
  constructor
  · rcases @raised_recent_of_le conf _ _ _ hat hle with hrows | hrows
    · exact hrows.trans h.1
    · exact hrows
  · rcases @raised_archive_of_le conf _ _ _ hat hle with hrows | hrows
    · exact hrows.trans h.2
    · exact hrows

section

variable (hat : AtHeight height db)
  (hle : start.height ≤ height)
  (h : Remembers rules.config start db ∨ Forgotten start.height db)

include hat hle h

/-- A block is added over what is left of an earlier height. -/
theorem left_addChainBlock (hadd : addChainBlock rules rescanning b db = some db') :
    Remembers rules.config start db' ∨ Forgotten start.height db' := by
  obtain ⟨hnext, db₀, paid, hprepared, hpay, rfl⟩ := (addChainBlock_eq_some_iff hat).mp hadd
  have hpaid : OnlyAccrued db₀ paid := payInput_onlyAccrued.of_ok hpay
  have hat₀ := hat.prepared hprepared
  have hat' := hat₀.onlyAccrued hpaid
  have hforgotten (h₀ : Forgotten start.height db₀) : Forgotten start.height paid := by
    rw [hpaid]
    exact h₀
  rcases prepared_cases hprepared with rfl | rfl
  · rcases h with h | h
    · left
      refine ((h.stored _ ?_).onlyAccrued hpaid).raised hat' hle (config_windows rules)
      intro p hp
      obtain ⟨payments, hpayments, hp⟩ := mem_flatten.mp hp
      rw [b.delayed_height payments hpayments p hp, hnext]
      omega
    · exact .inr ((hforgotten h).raised hat' hle)
  · exact .inr ((hforgotten ⟨rfl, rfl⟩).raised hat' hle)

/-- Blocks are added over what is left of an earlier height. -/
theorem left_addChain {blocks : List (Bool × ChainBlock)}
    (hadd : addChain rules blocks db = some db') :
    AtHeight (height + blocks.length) db' ∧
      (Remembers rules.config start db' ∨ Forgotten start.height db') := by
  induction blocks generalizing height db with
  | nil =>
    obtain rfl : db = db' := by simpa [addChain] using hadd
    exact ⟨hat, h⟩
  | cons block rest ih =>
    obtain ⟨db₁, hfirst, hadd⟩ := Option.bind_eq_some_iff.mp hadd
    obtain ⟨hat', h'⟩ := ih (hat.addChainBlock hfirst) (by omega)
      (left_addChainBlock hat hle h hfirst) hadd
    exact ⟨by rwa [add_right_comm, add_assoc] at hat', h'⟩

end

/-- A detach to a start whose backup is left gives its books back. -/
theorem Remembers.sameBooks (h : Remembers conf start db) (hstart : AtHeight start.height start)
    {table : PaymentTableType} (hcan : CanRestore table start.height db) :
    SameBooks start.height start
      (lowered (restoredRows table start.height db) start.height db) := by
  obtain ⟨dropped, _, hrecent, harchive, hdelayed⟩ := h.delayed
  have hrestored : restoredRows table start.height db = start.accrued ∧
      dropped ≤ start.height + conf.historyArchiveKeepWindow := by
    cases table with
    | nil => exact hcan.elim
    | recent =>
      obtain ⟨b, hb, hheight⟩ := any_eq_true.mp hcan
      refine ⟨h.recent.resolve_left (backupRows_ne_nil hcan), ?_⟩
      rw [← of_decide_eq_true hheight]
      exact hrecent b hb
    | archive =>
      obtain ⟨b, hb, hheight⟩ := any_eq_true.mp hcan
      refine ⟨h.archive.resolve_left (backupRows_ne_nil hcan), ?_⟩
      rw [← of_decide_eq_true hheight]
      exact harchive b hb
  refine ⟨hstart, ⟨rfl, rfl, by simp [lowered], by simp [lowered]⟩, hrestored.1, ?_, ?_⟩
  · simp only [pendingPayments, lowered]
    rw [hdelayed]
    exact filter_filter_of_iff (by omega)
  · simp only [lowered]
    rw [hdelayed]
    exact filter_sublist

/-- Blocks that are added, detached and added again leave the balances and the delayed
payments to come that adding them once leaves. -/
theorem readded_same {blocks blocks' : List (Bool × ChainBlock)} {table : PaymentTableType}
    (hrun : DbRun rules start) (hadd : addChain rules blocks start = some db)
    (hcan : CanRestore table start.height db)
    (hsame : blocks'.map Prod.snd = blocks.map Prod.snd) :
    ∃ detached again, blockchainDetached rules.config table start.height db = .ok () detached ∧
      addChain rules blocks' detached = some again ∧
      again.accrued = db.accrued ∧ pendingPayments again = pendingPayments db := by
  have hconsistent := hrun.consistent
  have hstart := hconsistent.atHeight
  obtain ⟨hat, hleft⟩ := left_addChain hstart (le_refl _)
    (.inl (hconsistent.remembers rules.config)) hadd
  obtain ⟨detached, hdetached, hbooks⟩ : ∃ detached,
      blockchainDetached rules.config table start.height db = .ok () detached ∧
        SameBooks start.height start detached := by
    cases blocks with
    | nil =>
      obtain rfl : start = db := by simpa [addChain] using hadd
      exact ⟨start, blockchainDetached_same hstart table, ⟨hstart, hstart, rfl, rfl, .refl _⟩⟩
    | cons =>
      have hnil : table ≠ .nil := by
        rintro rfl
        exact hcan
      refine ⟨_, blockchainDetached_below hat (by simp) table, ?_⟩
      rw [if_neg hnil]
      rcases hleft with hleft | hleft
      · exact hleft.sameBooks hstart hcan
      · cases table with
        | nil => exact hcan.elim
        | recent => exact absurd hleft.1 (backupRows_ne_nil hcan)
        | archive => exact absurd hleft.2 (backupRows_ne_nil hcan)
  obtain ⟨again, hagain, hbooks'⟩ := hbooks.addChain hsame hadd
  exact ⟨detached, again, hdetached, hagain, hbooks'.accrued, hbooks'.pending⟩

end

/-- Rules for concrete runs, on a fake chain with reward batching from the first block
on. -/
def replayRules : RewardRules :=
  { batchingRules with net := ⟨.fakechain, [⟨Hf.hf7, 0, 0⟩, ⟨Hf.hf19RewardBatching, 0, 1⟩]⟩ }

/-- An address whose balance is due at the second block of every twenty. -/
def secondBlockAddress : AccountPublicAddress := ⟨0, BitVec.ofNat 256 (2 * 2 ^ 248)⟩

/-- A block with a reward for a node of that address. -/
def rewardedBlock (height : ℕ) (reward : UInt64) (payable : List PublicKey)
    (vouts : List (PublicKey × UInt64)) : ChainBlock where
  input :=
    { block :=
        { majorVersion := Hf.hf19RewardBatching, height := height, hash := 0, reward := reward
          minerVouts := vouts }
      state := ⟨KeyMap.set OrdSet.empty 1
        { stakingRequirement := 100
          contributors := [{ amount := 100, address := secondBlockAddress }] }, 0⟩
      blockAdd := { payableNodes := payable } }
  delayed_height := by simp

/-- The database after one block, which rewards the node. -/
def oneBlockDb : RewardsDb :=
  (addChainBlock replayRules false (rewardedBlock 1 8250000000 [1] []) {}).getD {}

/-- The database after a second block, which pays the balance out. -/
def twoBlockDb : RewardsDb :=
  (addChain replayRules [(false, rewardedBlock 2 8250000000 [1] [(0, 8250000000)])]
    oneBlockDb).getD {}

/-- The second block can be added again, inside a rescan as well. -/
theorem readded_same_twoBlocks :
    ∃ detached again,
      blockchainDetached replayRules.config .recent oneBlockDb.height twoBlockDb = .ok () detached ∧
      addChain replayRules [(true, rewardedBlock 2 8250000000 [1] [(0, 8250000000)])] detached =
        some again ∧
      again.accrued = twoBlockDb.accrued ∧
      pendingPayments again = pendingPayments twoBlockDb :=
  readded_same (DbRun.block .start
      (rfl : addChainBlock replayRules false (rewardedBlock 1 8250000000 [1] []) {} =
        some oneBlockDb))
    (rfl : addChain replayRules [(false, rewardedBlock 2 8250000000 [1] [(0, 8250000000)])]
      oneBlockDb = some twoBlockDb)
    (rfl : batchPaymentsAccruedHasAny twoBlockDb true oneBlockDb.height = true) rfl

/-- A block without a reward is rejected while a rescan holds the transaction, and its
payout is kept. The next block that is accepted pays nothing; detached, it is no longer
accepted, since the balance is back. -/
theorem readded_after_rejected_rescan :
    ∃ start db detached again, DbRun replayRules oneBlockDb ∧
      addBlock replayRules true (rewardedBlock 2 0 [] [(0, 8250000000)]).input oneBlockDb =
        .ok false start ∧
      addChain replayRules [(false, rewardedBlock 2 8250000000 [] [])] start = some db ∧
      CanRestore .recent start.height db ∧
      blockchainDetached replayRules.config .recent start.height db = .ok () detached ∧
      addBlock replayRules false (rewardedBlock 2 8250000000 [] []).input detached =
        .ok false again ∧
      again.accrued ≠ db.accrued :=
  ⟨{ oneBlockDb with accrued := [] },
    { oneBlockDb with height := 2, infoHeight := 2, accrued := [] }, oneBlockDb, oneBlockDb,
    .block .start (rfl : addChainBlock replayRules false (rewardedBlock 1 8250000000 [1] []) {} =
      some oneBlockDb),
    rfl, rfl, (rfl : batchPaymentsAccruedHasAny _ true 1 = true), rfl, rfl, by decide +kernel⟩

end Xeqm.Rewards
