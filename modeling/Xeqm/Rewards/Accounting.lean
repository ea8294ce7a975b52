import Xeqm.Rewards.Restore
import Xeqm.Rewards.Shares

/-!
# The accrued balances account for what was credited

What the accrued balances and the payouts of accepted blocks come to never exceeds
what the blocks of the run credited. Up to the ETH fixup the table holds thousandths
of an atomic unit; a payout takes the whole units of a balance and leaves the rest.
-/

namespace Xeqm.Rewards

open Cryptonote Lib ServiceNodes RewardMoney List

/-- The sum of balances, in thousandths. -/
def accruedTotal (accrued : List AccruedRow) : ℤ := (accrued.map AccruedRow.amount).sum

/-- No balance is negative, and every address has one row. -/
structure SoundRows (accrued : List AccruedRow) : Prop where
  nonneg : ∀ row ∈ accrued, 0 ≤ row.amount
  unique : (accrued.map AccruedRow.address).Nodup

variable {accrued : List AccruedRow}

theorem SoundRows.total_nonneg (h : SoundRows accrued) : 0 ≤ accruedTotal accrued := by
  refine sum_nonneg fun amount hamount => ?_
  obtain ⟨row, hrow, rfl⟩ := mem_map.mp hamount
  exact h.nonneg row hrow

/-! ## Writing rows -/

/-- Writes the row of an address. -/
def rewrite (address : PayoutAddress) (f : AccruedRow → AccruedRow) (accrued : List AccruedRow) :
    List AccruedRow :=
  accrued.map (fun row => if row.address = address then f row else row)

section

variable {address : PayoutAddress} {f : AccruedRow → AccruedRow} {accrued : List AccruedRow}
  {change : ℤ}

theorem rewrite_eq_self (h : ∀ row ∈ accrued, row.address ≠ address) :
    rewrite address f accrued = accrued := by
  conv_rhs => rw [← map_id accrued]
  refine map_congr_left fun row hrow => ?_
  rw [if_neg (h row hrow), id]

theorem rewrite_addresses (hf : ∀ row, (f row).address = row.address) :
    (rewrite address f accrued).map AccruedRow.address = accrued.map AccruedRow.address := by
  rw [rewrite, map_map]
  refine map_congr_left fun row _ => ?_
  simp only [Function.comp_apply]
  split
  · exact hf row
  · rfl

/-- One row of the address is changed. -/
theorem accruedTotal_rewrite (hunique : (accrued.map AccruedRow.address).Nodup)
    (hmem : ∃ row ∈ accrued, row.address = address)
    (hf : ∀ row ∈ accrued, row.address = address → (f row).amount = row.amount + change) :
    accruedTotal (rewrite address f accrued) = accruedTotal accrued + change := by
  induction accrued with
  | nil =>
    obtain ⟨row, hrow, _⟩ := hmem
    cases hrow
  | cons first rest ih =>
    rw [map_cons, nodup_cons] at hunique
    obtain ⟨hfresh, hunique⟩ := hunique
    by_cases hfirst : first.address = address
    · have hrest : rewrite address f rest = rest := by
        refine rewrite_eq_self fun row hrow heq => hfresh ?_
        rw [hfirst, ← heq]
        exact mem_map_of_mem hrow
      have hchange := hf first mem_cons_self hfirst
      simp only [rewrite, accruedTotal, map_cons, sum_cons, if_pos hfirst] at hrest ⊢
      rw [hrest, hchange]
      ring
    · obtain ⟨row, hrow, haddress⟩ := hmem
      have hrest : row ∈ rest := by
        rcases mem_cons.mp hrow with rfl | hrow
        · exact absurd haddress hfirst
        · exact hrow
      have hsum := ih hunique ⟨row, hrest, haddress⟩
        (fun row hrow => hf row (mem_cons_of_mem _ hrow))
      simp only [rewrite, accruedTotal, map_cons, sum_cons, if_neg hfirst] at hsum ⊢
      rw [hsum]
      ring

end

variable {row : AccruedRow} {f : AccruedRow → AccruedRow} {address : PayoutAddress}

section

variable {db db' : RewardsDb} {address : PayoutAddress} {f : AccruedRow → AccruedRow}

/-- An update returns exactly if it writes no negative balance, and it wrote the row of the
address. -/
theorem updateAccrued_eq_ok_iff :
    updateAccrued address f db = .ok () db' ↔
      db' = { db with accrued := rewrite address f db.accrued } ∧
        ∀ row ∈ db.accrued, row.address = address → 0 ≤ (f row).amount := by
  have hnone : ¬ db.accrued.any (fun row => row.address = address && (f row).amount < 0) = true ↔
      ∀ row ∈ db.accrued, row.address = address → 0 ≤ (f row).amount := by
    simp
  rw [← hnone, updateAccrued]
  split
  · rename_i hsome
    exact iff_of_false (by simp) fun h => h.2 hsome
  · rename_i hnone'
    refine ⟨fun h => ?_, fun h => by rw [h.1]; rfl⟩
    cases h
    exact ⟨rfl, hnone'⟩

theorem SoundRows.updateAccrued (hsound : SoundRows db.accrued)
    (hf : ∀ row, (f row).address = row.address)
    (h : updateAccrued address f db = .ok () db') : SoundRows db'.accrued := by
  obtain ⟨rfl, hnonneg⟩ := updateAccrued_eq_ok_iff.mp h
  refine ⟨fun row hrow => ?_, by rw [rewrite_addresses hf]; exact hsound.unique⟩
  obtain ⟨old, hold, rfl⟩ := mem_map.mp hrow
  split
  · exact hnonneg old hold ‹_›
  · exact hsound.nonneg old hold

theorem accruedRow_some (h : accruedRow address db = some row) :
    row ∈ db.accrued ∧ row.address = address :=
  ⟨mem_of_find?_eq_some h, by simpa using find?_some h⟩

theorem accruedRow_none (h : accruedRow address db = none) :
    ∀ row ∈ db.accrued, row.address ≠ address := by
  intro row hrow
  simpa using find?_eq_none.mp h row hrow

/-- There is one row of an address. -/
theorem SoundRows.eq_of_address {other : AccruedRow} (h : SoundRows accrued) (hrow : row ∈ accrued)
    (haddress : row.address = address) (hother : other ∈ accrued)
    (haddress' : other.address = address) : other = row :=
  inj_on_of_nodup_map h.unique hother hrow (haddress'.trans haddress.symm)

theorem SoundRows.accruedRow_eq (h : SoundRows db.accrued) (hrow : row ∈ db.accrued)
    (haddress : row.address = address) : accruedRow address db = some row := by
  cases hfound : accruedRow address db with
  | none => exact absurd haddress (accruedRow_none hfound row hrow)
  | some found =>
    obtain ⟨hmem, haddress'⟩ := accruedRow_some hfound
    rw [h.eq_of_address hrow haddress hmem haddress']

end

/-! ## Computations that add to the balances -/

/-- Every run that returns keeps the rows sound and adds an amount to the balances. -/
def Adds {α : Type} (amount : ℤ) (m : DbM α) : Prop :=
  ∀ db a db', SoundRows db.accrued → m db = .ok a db' →
    SoundRows db'.accrued ∧ accruedTotal db'.accrued = accruedTotal db.accrued + amount

namespace Adds

variable {α β : Type} {x y : ℤ}

theorem pure (a : α) : Adds 0 (Pure.pure a : DbM α) := by
  intro db b db' hsound hrun
  cases hrun
  exact ⟨hsound, (add_zero _).symm⟩

theorem throw (fault : DbFault) : Adds x (MonadExcept.throw fault : DbM α) := by
  intro db b db' _ hrun
  cases hrun

theorem bind {m : DbM α} {f : α → DbM β} (hm : Adds x m) (hf : ∀ a, Adds y (f a)) :
    Adds (x + y) (m >>= f) := by
  intro db b db'' hsound hrun
  obtain ⟨a, db', hfirst, hrun⟩ := bind_eq_ok_iff.mp hrun
  obtain ⟨hsound', htotal⟩ := hm db a db' hsound hfirst
  obtain ⟨hsound'', htotal'⟩ := hf a db' b db'' hsound' hrun
  exact ⟨hsound'', by rw [htotal', htotal, add_assoc]⟩

theorem forM {l : List α} {f : α → DbM PUnit} {amount : α → ℤ} (h : ∀ a ∈ l, Adds (amount a) (f a)) :
    Adds (l.map amount).sum (l.forM f) := by
  induction l with
  | nil => exact .pure _
  | cons a _ ih =>
    exact .bind (h a mem_cons_self) fun _ => ih fun b hb => h b (mem_cons_of_mem a hb)

end Adds

/-- An update that leaves the amounts alone. -/
theorem updateAccrued_adds
    (haddress : ∀ row, (f row).address = row.address) (hamount : ∀ row, (f row).amount = row.amount) :
    Adds 0 (updateAccrued address f) := by
  intro db _ db' hsound hrun
  refine ⟨hsound.updateAccrued haddress hrun, ?_⟩
  obtain ⟨rfl, -⟩ := updateAccrued_eq_ok_iff.mp hrun
  by_cases hmem : ∃ row ∈ db.accrued, row.address = address
  · exact accruedTotal_rewrite hsound.unique hmem fun row _ _ => by rw [hamount, add_zero]
  · simp only [not_exists, not_and] at hmem
    rw [rewrite_eq_self hmem, add_zero]

/-- An insert adds its amount to the row of the address, or a new row. -/
theorem upsertAccrued_adds (haddress : ∀ row, (f row).address = row.address)
    (hamount : ∀ old, (f old).amount = old.amount + row.amount) :
    Adds row.amount (upsertAccrued row f) := by
  intro db _ db' hsound hrun
  unfold upsertAccrued at hrun
  split at hrun
  · cases hrun
  rename_i hnonneg
  split at hrun
  · rename_i old hold
    refine ⟨hsound.updateAccrued haddress hrun, ?_⟩
    obtain ⟨rfl, -⟩ := updateAccrued_eq_ok_iff.mp hrun
    exact accruedTotal_rewrite hsound.unique ⟨old, accruedRow_some hold⟩ fun _ _ _ => hamount _
  · rename_i hfresh
    cases hrun
    have hfresh := accruedRow_none hfresh
    refine ⟨⟨?_, ?_⟩, ?_⟩
    · intro other hother
      rcases mem_append.mp hother with hother | hother
      · exact hsound.nonneg other hother
      · rw [mem_singleton.mp hother]
        exact not_lt.mp hnonneg
    · rw [map_append, nodup_append]
      refine ⟨hsound.unique, by simp, ?_⟩
      intro a ha b hb
      obtain ⟨other, hother, rfl⟩ := mem_map.mp ha
      rw [map_singleton, mem_singleton] at hb
      rw [hb]
      exact hfresh other hother
    · simp [accruedTotal]

section

variable (rules : RewardRules)

/-- What payments come to in the unit of the database. -/
def written (hfVersion : Hf) (payments : BlockPayments) : ℤ :=
  (payments.map (fun entry => (entry.2.amount.sub entry.2.liquidation).toDbAmount hfVersion)).sum

/-- Up to the ETH fixup the payments are added as they are. -/
theorem written_eq_net {hfVersion : Hf} (hhf : hfVersion < Hf.hf22EthFixup)
    (payments : BlockPayments) : written hfVersion payments = net payments := by
  simp only [written, net, toDbAmount_eq_milli _ hhf, milli_sub]

theorem addSnRewards_adds {hfVersion : Hf} {payments : BlockPayments} {isRewards : Bool} :
    Adds (written hfVersion payments) (addSnRewards rules hfVersion payments isRewards) := by
  refine .forM fun entry _ => ?_
  simp only [addSnReward]
  split
  · split
    · exact upsertAccrued_adds (fun _ => rfl) fun _ => rfl
    · exact upsertAccrued_adds (fun _ => rfl) fun _ => rfl
  · split
    · exact .throw _
    · exact upsertAccrued_adds (fun _ => rfl) fun _ => rfl

theorem submitStakesMetadata_adds (blockAdd : BlockAddResult) :
    Adds 0 (submitStakesMetadata blockAdd) := by
  have hlocked : Adds (blockAdd.lockedStakes.map (fun _ => (0 : ℤ))).sum
      (blockAdd.lockedStakes.forM (fun stake =>
        upsertAccrued { address := .eth stake.addr, lifetimeLockedStakes := stake.amount.toNat }
          (fun row => { row with
            lifetimeLockedStakes := row.lifetimeLockedStakes + stake.amount.toNat }))) :=
    Adds.forM fun _ _ => upsertAccrued_adds (fun _ => rfl) fun _ => (add_zero _).symm
  have hpurged : Adds (blockAdd.purgedStakes.map (fun _ => (0 : ℤ))).sum
      (blockAdd.purgedStakes.forM (fun purge =>
        updateAccrued (.eth purge.addr) (fun row => { row with
          lifetimeLockedStakes := row.lifetimeLockedStakes - purge.amount.toNat }))) :=
    Adds.forM fun _ _ => updateAccrued_adds (fun _ => rfl) fun _ => rfl
  have hboth := Adds.bind hlocked fun _ => hpurged
  have hzero : (blockAdd.lockedStakes.map (fun _ => (0 : ℤ))).sum +
      (blockAdd.purgedStakes.map (fun _ => (0 : ℤ))).sum = 0 := by simp
  rw [hzero] at hboth
  exact hboth

/-- What a block credits: its reward, the governance reward, and the delayed payments
that come due. -/
def creditedBy (input : BlockInput) (db : RewardsDb) : ℤ :=
  input.block.reward.toNat + governanceOf rules input.block +
    if input.block.majorVersion ≥ Hf.hf21Eth then dueDelayed input.block.height db else 0

variable {rules} {db db' : RewardsDb}

/-- What the rewards of a block and the delayed payments add. -/
theorem rewardHandler_written {block : Block} {state : SnState} {payable : List PublicKey}
    (hsound : SoundRows db.accrued) (hrun : rewardHandler rules block state payable db = .ok () db') :
    ∃ payments, rewardPayments rules block state payable = .ok payments ∧ SoundRows db'.accrued ∧
      accruedTotal db'.accrued = accruedTotal db.accrued + (written block.majorVersion payments +
        if block.majorVersion ≥ Hf.hf21Eth then
          written block.majorVersion (getDelayedPayments block.height db)
        else 0) := by
  obtain ⟨payments, db₀, hpayments, hrun⟩ := bind_eq_ok_iff.mp hrun
  cases hresult : rewardPayments rules block state payable with
  | error => simp [hresult, orDbThrow] at hpayments
  | ok =>
    rw [hresult, orDbThrow, pure_run] at hpayments
    cases hpayments
    refine ⟨payments, rfl, ?_⟩
    split_ifs at hrun ⊢
    · rw [add_comm (written _ payments)]
      exact Adds.bind (addSnRewards_adds rules) (fun _ => addSnRewards_adds rules) _ _ _ hsound hrun
    · rw [add_zero]
      exact addSnRewards_adds rules _ _ _ hsound hrun

/-- The rewards of a block come to at most what it credits. -/
theorem rewardHandler_adds {input : BlockInput}
    (hhf : input.block.majorVersion < Hf.hf22EthFixup)
    (hfair : ∀ key info, input.state.infos.get? key = some info → FairShares info)
    (hsound : SoundRows db.accrued)
    (hrun : rewardHandler rules input.block input.state input.blockAdd.payableNodes db =
      .ok () db') :
    SoundRows db'.accrued ∧
      accruedTotal db'.accrued ≤ accruedTotal db.accrued + creditedBy rules input db * 1000 := by
  obtain ⟨payments, hpayments, hsound', htotal⟩ := rewardHandler_written hsound hrun
  have hnet := rewardPayments_net_le hfair hpayments
  rw [written_eq_net hhf, written_eq_net hhf, getDelayedPayments_net] at htotal
  refine ⟨hsound', ?_⟩
  unfold creditedBy
  split_ifs at htotal ⊢ <;> linarith

end

/-! ## Payouts -/

section

variable {db db' : RewardsDb} {payments : List BatchSnPayment} {rules : RewardRules}
  {payment : BatchSnPayment} {blockHeight : ℕ}

/-- The balance after a payout of its whole units. -/
def takeWhole (row : AccruedRow) : AccruedRow := { row with amount := row.amount % 1000 }

theorem mem_rewrite_of_ne (hrow : row ∈ accrued) (hne : row.address ≠ address) :
    row ∈ rewrite address f accrued :=
  mem_map.mpr ⟨row, hrow, if_neg hne⟩

theorem SoundRows.filter (h : SoundRows accrued)
    (p : AccruedRow → Bool) : SoundRows (accrued.filter p) :=
  ⟨fun row hrow => h.nonneg row (mem_of_mem_filter hrow), h.unique.sublist (filter_sublist.map _)⟩

theorem accruedTotal_filter (accrued : List AccruedRow) :
    accruedTotal (accrued.filter (fun row => row.amount ≠ 0)) = accruedTotal accrued := by
  induction accrued with
  | nil => rfl
  | cons row _ ih =>
    simp only [accruedTotal, ne_eq, decide_not] at ih ⊢
    by_cases hzero : row.amount = 0 <;> simp [hzero, ih]

theorem truncate_fromDbAmount {amount : ℤ} (h : 0 ≤ amount) {hfVersion : Hf}
    (hhf : hfVersion < Hf.hf22EthFixup) :
    (fromDbAmount amount hfVersion).truncate = fromCoin (amount / 1000) := by
  rw [fromDbAmount, if_neg (UInt8.not_le.mpr hhf), truncate, fromCoin, batchRewardFactor,
    Int.tdiv_eq_ediv_of_nonneg h]

/-- What is read is the addresses and the amounts of the rows, in some order. -/
theorem readAccrued_perm {rows : List AccruedRow} {pairs : List (AccountPublicAddress × ℤ)}
    (h : readAccrued rows = .ok pairs) :
    (pairs.map (fun pair => (PayoutAddress.oxen pair.1, pair.2))).Perm
      (rows.map (fun row => (row.address, row.amount))) := by
  obtain ⟨read, hread, hsorted⟩ := except_bind_eq_ok_iff.mp h
  cases hsorted
  have hrows : read.map (fun pair => (PayoutAddress.oxen pair.1, pair.2)) =
      rows.map (fun row => (row.address, row.amount)) := by
    clear h
    induction rows generalizing read with
    | nil =>
      cases hread
      rfl
    | cons row rest ih =>
      rw [mapM_cons] at hread
      obtain ⟨pair, hpair, hread⟩ := except_bind_eq_ok_iff.mp hread
      obtain ⟨others, hothers, hread⟩ := except_bind_eq_ok_iff.mp hread
      cases hread
      split at hpair
      · rename_i address haddress
        cases hpair
        simp only [map_cons, haddress, ih others hothers]
      · cases hpair
  rw [← hrows]
  exact (perm_insertionSort _ read).map _

theorem readAccrued_addresses {rows : List AccruedRow}
    {pairs : List (AccountPublicAddress × ℤ)} (hunique : (rows.map AccruedRow.address).Nodup)
    (h : readAccrued rows = .ok pairs) : (pairs.map Prod.fst).Nodup := by
  have hperm := (readAccrued_perm h).map Prod.fst
  simp only [map_map, Function.comp_def] at hperm
  refine .of_map PayoutAddress.oxen ?_
  rw [map_map]
  exact hperm.nodup_iff.mpr hunique

/-- Saved payments end with the empty balances removed. -/
theorem savePayments_eq_true (hrun : savePayments payments db = .ok true db') :
    ∃ db₁, savePaymentRows payments db = .ok true db₁ ∧
      (db'.accrued = db₁.accrued ∧ payments = [] ∨
        db'.accrued = db₁.accrued.filter (fun row => row.amount ≠ 0)) := by
  obtain ⟨saved, db₁, hrows, hrun⟩ := bind_eq_ok_iff.mp hrun
  split at hrun
  · rename_i hsaved
    obtain ⟨rfl, _⟩ := hsaved
    obtain ⟨_, db₂, hclean, hrun⟩ := bind_eq_ok_iff.mp hrun
    cases hclean
    cases hrun
    exact ⟨db₁, hrows, .inr rfl⟩
  · rename_i hsaved
    cases hrun
    simp only [true_and, ne_eq, not_not] at hsaved
    exact ⟨_, hrows, .inl ⟨rfl, hsaved⟩⟩

section

variable (hsound : SoundRows db.accrued)

include hsound

/-- A payment that is saved takes the whole units of the row of its address. -/
theorem savePaymentRows_cons {address : AccountPublicAddress} {amount : RewardMoney}
    (hrun : savePaymentRows ((address, amount) :: payments) db = .ok true db') :
    ∃ row ∈ db.accrued, row.address = .oxen address ∧ amount = fromCoin (row.amount / 1000) ∧
      ∃ db₁, db₁.accrued = rewrite (.oxen address) takeWhole db.accrued ∧
        SoundRows db₁.accrued ∧ savePaymentRows payments db₁ = .ok true db' := by
  rw [savePaymentRows, get_bind_run] at hrun
  cases hrow : accruedRow (.oxen address) db with
  | none => simp [hrow] at hrun
  | some row =>
    obtain ⟨hmem, haddress⟩ := accruedRow_some hrow
    simp only [hrow] at hrun
    split at hrun
    · simp at hrun
    rename_i hstored
    rw [not_not] at hstored
    have hamount : amount = fromCoin (row.amount / 1000) := by
      rw [← hstored, truncate_fromDbAmount (hsound.nonneg row hmem) (by decide)]
    obtain ⟨_, db₁, hupdate, hrun⟩ := bind_eq_ok_iff.mp hrun
    refine ⟨row, hmem, haddress, hamount, db₁, ?_,
      hsound.updateAccrued (by intro _; rfl) hupdate, hrun⟩
    obtain ⟨rfl, -⟩ := updateAccrued_eq_ok_iff.mp hupdate
    refine map_congr_left fun other hother => ?_
    by_cases hother' : other.address = .oxen address
    · obtain rfl := hsound.eq_of_address hmem haddress hother hother'
      have hrest : other.amount - other.amount / 1000 * 1000 = other.amount % 1000 := by omega
      rw [if_pos hother', if_pos hother', takeWhole, hamount,
        toDbAmount_eq_milli _ (by decide), milli_fromCoin]
      simp only [hrest]
    · rw [if_neg hother', if_neg hother']

/-- The saved payments are taken from the balances. -/
theorem savePaymentRows_total (hrun : savePaymentRows payments db = .ok true db') :
    SoundRows db'.accrued ∧
      accruedTotal db'.accrued =
        accruedTotal db.accrued - 1000 * (payments.map (fun p => p.2.atomic)).sum := by
  induction payments generalizing db with
  | nil =>
    cases hrun
    exact ⟨hsound, by simp⟩
  | cons payment rest ih =>
    obtain ⟨row, hmem, haddress, hamount, db₁, haccrued, hsound₁, hrest⟩ :=
      savePaymentRows_cons hsound hrun
    obtain ⟨hsound', htotal⟩ := ih hsound₁ hrest
    refine ⟨hsound', ?_⟩
    have htaken : accruedTotal db₁.accrued = accruedTotal db.accrued + -1000 * payment.2.atomic := by
      rw [haccrued]
      refine accruedTotal_rewrite hsound.unique ⟨row, hmem, haddress⟩ fun other hother hother' => ?_
      obtain rfl := hsound.eq_of_address hmem haddress hother hother'
      rw [hamount, takeWhole, fromCoin]
      simp only
      omega
    rw [htotal, htaken, map_cons, sum_cons]
    ring

/-- Rows of other addresses are left alone. -/
theorem savePaymentRows_frame (hrun : savePaymentRows payments db = .ok true db')
    (hrow : row ∈ db.accrued) (hother : ∀ p ∈ payments, row.address ≠ .oxen p.1) : row ∈ db'.accrued := by
  induction payments generalizing db with
  | nil =>
    cases hrun
    exact hrow
  | cons payment _ ih =>
    obtain ⟨_, _, _, _, db₁, haccrued, hsound₁, hrest⟩ := savePaymentRows_cons hsound hrun
    refine ih hsound₁ hrest ?_ fun p hp => hother p (mem_cons_of_mem _ hp)
    rw [haccrued]
    exact mem_rewrite_of_ne hrow (hother payment mem_cons_self)

/-- Each payment to a different address takes the whole units of a balance, and the
rest stays. -/
theorem savePaymentRows_row (hunique : (payments.map Prod.fst).Nodup)
    (hrun : savePaymentRows payments db = .ok true db') (hpayment : payment ∈ payments) :
    ∃ row ∈ db.accrued, row.address = .oxen payment.1 ∧
      payment.2 = fromCoin (row.amount / 1000) ∧ takeWhole row ∈ db'.accrued := by
  induction payments generalizing db with
  | nil => cases hpayment
  | cons first rest ih =>
    obtain ⟨row, hmem, haddress, hamount, db₁, haccrued, hsound₁, hrest⟩ :=
      savePaymentRows_cons hsound hrun
    rw [map_cons, nodup_cons] at hunique
    have hfresh (p : BatchSnPayment) (hp : p ∈ rest) : p.1 ≠ first.1 := fun heq =>
      hunique.1 (heq ▸ mem_map_of_mem hp)
    rcases mem_cons.mp hpayment with rfl | hpayment
    · refine ⟨row, hmem, haddress, hamount, ?_⟩
      refine savePaymentRows_frame hsound₁ hrest ?_ fun p hp heq => hfresh p hp ?_
      · rw [haccrued]
        exact mem_map.mpr ⟨row, hmem, if_pos haddress⟩
      · exact (PayoutAddress.oxen.inj (haddress.symm.trans heq)).symm
    · obtain ⟨row', hmem', haddress', hamount', htaken⟩ := ih hsound₁ hunique.2 hrest hpayment
      refine ⟨row', ?_, haddress', hamount', htaken⟩
      rw [haccrued] at hmem'
      obtain ⟨old, hold, rfl⟩ := mem_map.mp hmem'
      split at haddress'
      · rename_i hfirst
        refine absurd (PayoutAddress.oxen.inj ?_).symm (hfresh payment hpayment)
        exact hfirst.symm.trans haddress'
      · rename_i hfirst
        rwa [if_neg hfirst]

/-- The payments that are due go to different addresses. -/
theorem getSnPayments_addresses (h : getSnPayments rules blockHeight db = .ok payments) :
    (payments.map Prod.fst).Nodup := by
  have hselected {pairs : List (AccountPublicAddress × ℤ)} (hunique : (pairs.map Prod.fst).Nodup)
      (p : AccountPublicAddress × ℤ → Bool) {g : AccountPublicAddress × ℤ → BatchSnPayment}
      (hg : ∀ pair, (g pair).1 = pair.1) : (((pairs.filter p).map g).map Prod.fst).Nodup := by
    have hfst : Prod.fst ∘ g = Prod.fst := funext hg
    rw [map_map, hfst]
    exact hunique.sublist (filter_sublist.map _)
  unfold getSnPayments at h
  split at h
  · cases h
    exact nodup_nil
  obtain ⟨due, hdue, h⟩ := except_bind_eq_ok_iff.mp h
  split at h
  · obtain ⟨all, hall, h⟩ := except_bind_eq_ok_iff.mp h
    cases h
    exact hselected (readAccrued_addresses hsound.unique hall) _ fun _ => rfl
  · cases h
    refine hselected (readAccrued_addresses ?_ hdue) _ fun _ => rfl
    exact hsound.unique.sublist (filter_sublist.map _)

/-- The payments of a block go to different addresses. -/
theorem duePayments_addresses {block : Block}
    (h : duePayments rules block db = .ok payments) : (payments.map Prod.fst).Nodup := by
  unfold duePayments at h
  split at h
  · exact getSnPayments_addresses hsound h
  · cases h
    exact nodup_nil

theorem savePayments_total (hrun : savePayments payments db = .ok true db') :
    SoundRows db'.accrued ∧
      accruedTotal db'.accrued =
        accruedTotal db.accrued - 1000 * (payments.map (fun p => p.2.atomic)).sum := by
  obtain ⟨db₁, hrows, haccrued⟩ := savePayments_eq_true hrun
  obtain ⟨hsound₁, htotal⟩ := savePaymentRows_total hsound hrows
  rcases haccrued with ⟨haccrued, -⟩ | haccrued
  · rw [haccrued]
    exact ⟨hsound₁, htotal⟩
  · rw [haccrued, accruedTotal_filter]
    exact ⟨hsound₁.filter _, htotal⟩

/-- After the payouts an address has the rest of its balance, and no row if nothing
is left. -/
theorem savePayments_row (hunique : (payments.map Prod.fst).Nodup)
    (hrun : savePayments payments db = .ok true db') (hpayment : payment ∈ payments) :
    ∃ row ∈ db.accrued, row.address = .oxen payment.1 ∧
      payment.2 = fromCoin (row.amount / 1000) ∧
      accruedRow (.oxen payment.1) db' =
        if row.amount % 1000 = 0 then none else some (takeWhole row) := by
  obtain ⟨db₁, hrows, haccrued⟩ := savePayments_eq_true hrun
  obtain ⟨hsound₁, -⟩ := savePaymentRows_total hsound hrows
  obtain ⟨row, hmem, haddress, hamount, htaken⟩ := savePaymentRows_row hsound hunique hrows hpayment
  refine ⟨row, hmem, haddress, hamount, ?_⟩
  have hkept : db'.accrued = db₁.accrued.filter (fun row => row.amount ≠ 0) := by
    rcases haccrued with ⟨-, hnone⟩ | haccrued
    · rw [hnone] at hpayment
      cases hpayment
    · exact haccrued
  cases hfound : accruedRow (.oxen payment.1) db' with
  | none =>
    have hnone := accruedRow_none hfound
    rw [if_pos]
    by_contra hrest
    refine hnone (takeWhole row) ?_ haddress
    rw [hkept]
    exact mem_filter.mpr ⟨htaken, decide_eq_true hrest⟩
  | some found =>
    obtain ⟨hmem', haddress'⟩ := accruedRow_some hfound
    rw [hkept] at hmem'
    obtain ⟨hmem', hrest⟩ := mem_filter.mp hmem'
    obtain rfl := hsound₁.eq_of_address htaken haddress hmem' haddress'
    have hrest : row.amount % 1000 ≠ 0 := of_decide_eq_true hrest
    rw [if_neg hrest]

end

/-! ## Blocks -/

/-- Outputs that match the payments come to the same. -/
theorem vouchersMatch_sum
    {vouts : List (PublicKey × UInt64)} (h : vouchersMatch rules blockHeight vouts payments = true) :
    (payments.map (fun p => p.2.atomic)).sum = (vouts.map (fun v => (v.2.toNat : ℤ))).sum := by
  rw [vouchersMatch, Bool.and_eq_true, decide_eq_true_eq] at h
  obtain ⟨hlength, hall⟩ := h
  have hzip : ∀ x ∈ vouts.zip payments, fromCoin x.1.2.toNat = x.2.2 := by
    intro x hx
    obtain ⟨i, hi, rfl⟩ := mem_iff_getElem.mp hx
    have hmem : ((vouts.zip payments)[i], i) ∈ (vouts.zip payments).zipIdx := by
      rw [mem_zipIdx_iff_getElem?]
      exact getElem?_eq_getElem hi
    have := all_eq_true.mp hall _ hmem
    simp only [Bool.and_eq_true, decide_eq_true_eq] at this
    exact this.1
  clear hall
  induction vouts generalizing payments with
  | nil =>
    rw [length_nil, eq_comm, length_eq_zero_iff] at hlength
    rw [hlength]
    rfl
  | cons vout _ ih =>
    cases payments with
    | nil => cases hlength
    | cons payment =>
      have hfirst : fromCoin vout.2.toNat = payment.2 := hzip (vout, payment) (by simp)
      have hrest := ih (Nat.succ.inj hlength) fun x hx => hzip x (by simp [hx])
      simp only [map_cons, sum_cons, hrest, ← hfirst, fromCoin]

/-- What a block pays out: the outputs of its miner transaction, or what it takes from
the balances if those are not verified. -/
def paidBy (input : BlockInput) (payments : List BatchSnPayment) : ℤ :=
  if input.skipVerify then (payments.map (fun p => p.2.atomic)).sum
  else (input.block.minerVouts.map (fun v => (v.2.toNat : ℤ))).sum

section

variable {rules : RewardRules} {input : BlockInput}

theorem validateBatchPayment_total (hsound : SoundRows db.accrued)
    (hrun : validateBatchPayment rules input.skipVerify input.block.height input.block.minerVouts
      payments db = .ok true db') :
    SoundRows db'.accrued ∧
      accruedTotal db'.accrued = accruedTotal db.accrued - 1000 * paidBy input payments := by
  unfold validateBatchPayment at hrun
  split at hrun
  · cases hrun
  rename_i hmatch
  obtain ⟨hsound', htotal⟩ := savePayments_total hsound hrun
  refine ⟨hsound', ?_⟩
  rw [htotal, paidBy]
  by_cases hskip : input.skipVerify = true
  · rw [if_pos hskip]
  · simp only [hskip, Bool.not_false, Bool.true_and, Bool.not_eq_true', Bool.not_eq_false] at hmatch
    rw [if_neg hskip, vouchersMatch_sum hmatch]

/-- A block that is paid adds at most what it credits and takes what it pays out. -/
theorem payBlock_accounts (hhf : input.block.majorVersion < Hf.hf22EthFixup)
    (hfair : ∀ key info, input.state.infos.get? key = some info → FairShares info)
    (hsound : SoundRows db.accrued) (hrun : payBlock rules input payments db = .ok true db') :
    SoundRows db'.accrued ∧
      accruedTotal db'.accrued + 1000 * paidBy input payments ≤
        accruedTotal db.accrued + 1000 * creditedBy rules input db := by
  obtain ⟨valid, db₁, hvalid, hrun⟩ := bind_eq_ok_iff.mp hrun
  cases valid with
  | false => simp at hrun
  | true =>
    have hsame : OnlyAccrued db db₁ := (validateBatchPayment_onlyAccrued rules).of_ok hvalid
    have hcredit : creditedBy rules input db₁ = creditedBy rules input db := by
      rw [hsame]
      rfl
    obtain ⟨hsound₁, htotal₁⟩ := validateBatchPayment_total hsound hvalid
    obtain ⟨_, db₂, hrewards, hrun⟩ := bind_eq_ok_iff.mp hrun
    obtain ⟨hsound₂, htotal₂⟩ := rewardHandler_adds hhf hfair hsound₁ hrewards
    split at hrun
    · obtain ⟨_, db₃, hstakes, hrun⟩ := bind_eq_ok_iff.mp hrun
      cases hrun
      obtain ⟨hsound₃, htotal₃⟩ := submitStakesMetadata_adds _ _ _ _ hsound₂ hstakes
      exact ⟨hsound₃, by linarith⟩
    · cases hrun
      exact ⟨hsound₂, by linarith⟩

/-- The first block of reward batching finds no balances, any other one those that
were there. -/
theorem beginBatching_accrued {db₀ : RewardsDb} {height : ℕ}
    (h : beginBatching rules height db = .ok () db₀) :
    db₀.accrued = db.accrued ∨ db₀.accrued = [] := by
  rw [beginBatching_run] at h
  cases h
  split
  · exact .inr rfl
  · exact .inl rfl

/-- An accepted block adds at most what it credits and takes what it pays out. -/
theorem addBlock_accounts {rescanning : Bool}
    (hfrom : ¬ input.block.majorVersion < Hf.hf19RewardBatching)
    (hhf : input.block.majorVersion < Hf.hf22EthFixup)
    (hfair : ∀ key info, input.state.infos.get? key = some info → FairShares info)
    (hsound : SoundRows db.accrued) (hrun : addBlock rules rescanning input db = .ok true db') :
    ∃ db₀ payments, beginBatching rules input.block.height db = .ok () db₀ ∧
      duePayments rules input.block db₀ = .ok payments ∧ SoundRows db'.accrued ∧
      accruedTotal db'.accrued + 1000 * paidBy input payments ≤
        accruedTotal db.accrued + 1000 * creditedBy rules input db₀ := by
  obtain ⟨db₀, hbegin, hcases⟩ := addBlock_cases hfrom hrun
  rcases hcases with ⟨hfalse, -, -⟩ | ⟨-, payments, hdue, hbody⟩
  · cases hfalse
  refine ⟨db₀, payments, hbegin, hdue, ?_⟩
  obtain ⟨hsound₀, htotal₀⟩ : SoundRows db₀.accrued ∧
      accruedTotal db₀.accrued ≤ accruedTotal db.accrued := by
    rcases beginBatching_accrued hbegin with haccrued | haccrued
    · rw [haccrued]
      exact ⟨hsound, le_refl _⟩
    · rw [haccrued]
      exact ⟨⟨by simp, by simp⟩, hsound.total_nonneg⟩
  obtain ⟨-, hdone⟩ | ⟨hfalse, -⟩ := runBody_cases hbody
  case inr => cases hfalse
  rw [addBlockBody_eq] at hdone
  obtain ⟨valid, paid, hpay, hdone⟩ := bind_eq_ok_iff.mp hdone
  cases valid with
  | false => cases hdone
  | true =>
    rw [if_pos rfl, get_bind_run] at hdone
    obtain ⟨_, raised, hwrite, hdone⟩ := bind_eq_ok_iff.mp hdone
    cases hdone
    obtain ⟨-, hsame⟩ := updateHeight_frame rules.config (paid.height + 1) paid
    rw [hwrite, finalState_ok] at hsame
    obtain ⟨hsound', htotal⟩ := payBlock_accounts hhf hfair hsound₀ hpay
    rw [hsame]
    exact ⟨hsound', by linarith⟩

/-- Outside a rescan a block that is not accepted leaves the balances, or none. -/
theorem addBlock_rejected_accrued (hfrom : ¬ input.block.majorVersion < Hf.hf19RewardBatching)
    (hreject : ∀ db', addBlock rules false input db ≠ .ok true db') :
    (finalState (addBlock rules false input db)).accrued = db.accrued ∨
      (finalState (addBlock rules false input db)).accrued = [] := by
  obtain ⟨db₀, hbegin⟩ : ∃ db₀, beginBatching rules input.block.height db = .ok () db₀ :=
    ⟨_, beginBatching_run⟩
  have hbegun := beginBatching_accrued hbegin
  simp only [addBlock, if_neg hfrom] at hreject ⊢
  rw [bind_run_of_ok hbegin, get_bind_run] at hreject ⊢
  split
  · exact hbegun
  rename_i hnext
  rw [if_neg hnext] at hreject
  cases hdue : duePayments rules input.block db₀ with
  | error => exact hbegun
  | ok payments =>
    simp only [hdue, orDbThrow, pure_bind] at hreject ⊢
    unfold runBody at hreject ⊢
    split
    · rename_i db' hdone
      simp [hdone] at hreject
    · exact hbegun
    · exact hbegun

/-! ## Runs -/

/-- Runs of `add_block` and `add_delayed_payments` from a database without balances,
over blocks from reward batching up to the ETH fixup, with what the accepted blocks
credited and paid out. -/
inductive AccountRun (rules : RewardRules) : RewardsDb → ℤ → ℤ → Prop
  | start {db : RewardsDb} (h : db.accrued = []) : AccountRun rules db 0 0
  | delayed {db : RewardsDb} {credited paid : ℤ} (hrun : AccountRun rules db credited paid)
      (rescanning : Bool) (payments : List DelayedPayment) :
      AccountRun rules (addDelayedPayments rescanning payments db).1 credited paid
  | accepted {db db' db₀ : RewardsDb} {credited paid : ℤ} {input : BlockInput} {rescanning : Bool}
      {payments : List BatchSnPayment} (hrun : AccountRun rules db credited paid)
      (hfrom : ¬ input.block.majorVersion < Hf.hf19RewardBatching)
      (hhf : input.block.majorVersion < Hf.hf22EthFixup)
      (hfair : ∀ key info, input.state.infos.get? key = some info → FairShares info)
      (hbegin : beginBatching rules input.block.height db = .ok () db₀)
      (hdue : duePayments rules input.block db₀ = .ok payments)
      (hadd : addBlock rules rescanning input db = .ok true db') :
      AccountRun rules db' (credited + creditedBy rules input db₀)
        (paid + paidBy input payments)
  | rejected {db : RewardsDb} {credited paid : ℤ} {input : BlockInput}
      (hrun : AccountRun rules db credited paid)
      (hfrom : ¬ input.block.majorVersion < Hf.hf19RewardBatching)
      (hreject : ∀ db', addBlock rules false input db ≠ .ok true db') :
      AccountRun rules (finalState (addBlock rules false input db)) credited paid

/-- In every run the balances and the payouts come to at most what was credited, no
balance is negative, and each payment of a block takes the whole units of one balance
and leaves the rest, which is less than one unit. -/
theorem accrued_accounted {credited paid : ℤ} (hrun : AccountRun rules db credited paid) :
    accruedTotal db.accrued + 1000 * paid ≤ 1000 * credited ∧
      (∀ row ∈ db.accrued, 0 ≤ row.amount) ∧
      ∀ block payments db', duePayments rules block db = .ok payments →
        savePayments payments db = .ok true db' → ∀ payment ∈ payments,
          ∃ row ∈ db.accrued, row.address = .oxen payment.1 ∧
            payment.2 = fromCoin (row.amount / 1000) ∧
            accruedRow (.oxen payment.1) db' =
              if row.amount % 1000 = 0 then none
              else some { row with amount := row.amount % 1000 } := by
  have hbooks : SoundRows db.accrued ∧ accruedTotal db.accrued + 1000 * paid ≤ 1000 * credited := by
    induction hrun with
    | start h =>
      rw [h]
      exact ⟨⟨by simp, by simp⟩, by simp [accruedTotal]⟩
    | delayed _ _ _ ih =>
      unfold addDelayedPayments
      simp only
      split <;> exact ih
    | accepted _ hfrom hhf hfair hbegin hdue hadd ih =>
      obtain ⟨db₀, payments, hbegin', hdue', hsound, htotal⟩ :=
        addBlock_accounts hfrom hhf hfair ih.1 hadd
      obtain ⟨-, rfl⟩ := EStateM.Result.ok.inj (hbegin.symm.trans hbegin')
      obtain rfl := Except.ok.inj (hdue.symm.trans hdue')
      exact ⟨hsound, by linarith [ih.2]⟩
    | rejected _ hfrom hreject ih =>
      rcases addBlock_rejected_accrued hfrom hreject with haccrued | haccrued
      · rw [haccrued]
        exact ih
      · rw [haccrued]
        have hnonneg := ih.1.total_nonneg
        have hnil : accruedTotal [] = 0 := rfl
        exact ⟨⟨by simp, by simp⟩, by linarith [ih.2]⟩
  refine ⟨hbooks.2, hbooks.1.nonneg, fun block payments db' hdue hsave payment hpayment => ?_⟩
  exact savePayments_row hbooks.1 (duePayments_addresses hbooks.1 hdue) hsave hpayment

end

end

/-- Rules for a concrete run, on a fake chain with the ETH fork at block 3. -/
def ethRules : RewardRules :=
  { batchingRules with
    net := ⟨.fakechain, [⟨Hf.hf7, 0, 0⟩, ⟨Hf.hf19RewardBatching, 0, 1⟩, ⟨Hf.hf21Eth, 0, 3⟩]⟩ }

/-- The return of a stake that comes due at block 3. -/
def returnedStake : DelayedPayment :=
  { ethAddress := 1, amount := 5, payoutHeight := 3, height := 2, blockHeight := 0
    blockTxIndex := 0, contributorIndex := 0, liquidationAmount := 0 }

/-- A block without a reward at which the stake comes due. -/
def returningBlock : BlockInput :=
  { block := { majorVersion := Hf.hf21Eth, height := 3, hash := 0 }
    state := ⟨OrdSet.empty, 0⟩
    blockAdd := {} }

/-- Two blocks that reward a node, the second of which pays its balance out, and a third one in
which a stake comes due are accounted for. -/
theorem accrued_accounted_threeBlocks :
    ∃ db credited paid, AccountRun ethRules db credited paid ∧ credited = 16500000005 ∧
      paid = 8250000000 ∧ accruedTotal db.accrued + 1000 * paid ≤ 1000 * credited := by
  have hfair (height : ℕ) (vouts : List (PublicKey × UInt64)) : ∀ key info,
      (rewardedBlock height 8250000000 [1] vouts).input.state.infos.get? key = some info →
        FairShares info := by
    intro key info hinfo
    rcases KeyMap.mem_set.mp (KeyMap.get?_eq_some_iff.mp hinfo) with hnew | ⟨hold, -⟩
    · cases hnew
      exact ⟨by decide, by decide⟩
    · cases hold
  have hfirst : AccountRun ethRules oneBlockDb _ _ := .accepted (.start rfl) (by decide) (by decide)
    (hfair 1 []) (rfl : beginBatching ethRules 1 {} = .ok () {})
    (rfl : duePayments ethRules _ {} = .ok [])
    (rfl : addBlock ethRules false (rewardedBlock 1 8250000000 [1] []).input {} =
      .ok true oneBlockDb)
  have hsecond : AccountRun ethRules twoBlockDb _ _ :=
    .accepted hfirst (by decide) (by decide) (hfair 2 [(0, 8250000000)])
    (rfl : beginBatching ethRules 2 oneBlockDb = .ok () oneBlockDb)
    (rfl : duePayments ethRules _ oneBlockDb = .ok [(secondBlockAddress, fromCoin 8250000000)])
    (rfl : addBlock ethRules false (rewardedBlock 2 8250000000 [1] [(0, 8250000000)]).input
      oneBlockDb = .ok true twoBlockDb)
  have hthird := AccountRun.accepted (hsecond.delayed false [returnedStake]) (by decide) (by decide)
    (fun key info hinfo => absurd (KeyMap.get?_eq_some_iff.mp hinfo) OrdSet.not_mem_empty)
    (rfl : beginBatching ethRules 3 _ = .ok () _) (rfl : duePayments ethRules _ _ = .ok [])
    (rfl : addBlock ethRules false returningBlock
      (addDelayedPayments false [returnedStake] twoBlockDb).1 =
        .ok true (finalState (addBlock ethRules false returningBlock
          (addDelayedPayments false [returnedStake] twoBlockDb).1)))
  exact ⟨_, _, _, hthird, by decide +kernel, by decide +kernel, (accrued_accounted hthird).1⟩

/-- The return of a stake is credited beside the reward of a block. -/
theorem accrued_above_rewards :
    ∃ db', addBlock ethRules false returningBlock
        (addDelayedPayments false [returnedStake] { height := 2, infoHeight := 2 }).1 =
          .ok true db' ∧
      1000 * (returningBlock.block.reward.toNat + governanceOf ethRules returningBlock.block) <
        accruedTotal db'.accrued + 1000 * paidBy returningBlock [] :=
  ⟨(raised ethRules.config
      { height := 2, infoHeight := 2
        accrued := [{ address := .eth 1, amount := 5000, lifetimeUnlockedStakes := 5 }]
        delayedPayments := [returnedStake] }), rfl, by decide⟩

end Xeqm.Rewards
