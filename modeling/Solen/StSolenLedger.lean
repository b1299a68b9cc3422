import Solen.StSolenCalls

/-!
# The stSOLEN token and its exchange rate

The token's supply is the sum of its balances: every change in the list of
book changes keeps the two together. Burns and mints are the only changes
of the supply, and each is at the current rate or worse, so that the pool
per token never falls.

Both are statements about runs. A run is a sequence of calls by anyone,
with any values, balances and fuel; a call that was undone leaves no trace.
The host drops a write that the fuel does not cover and the call goes on,
so both hold of the runs in which no request is refused, and a withdrawal
that runs short of fuel breaks both.
-/

namespace Solen.StSolen

open Machine

variable {a account : AccountId} {amount : U128}

/-! ## Sums of balances -/

theorem sumOf_add {f : AccountId → U128} {v : U128} (h : Fits (f a) v) :
    sumOf (Function.update f a (f a + v)) = sumOf f + v.toNat := by
  have hsum := sumOf_update f a (f a + v)
  have hadd := h.toNat_add
  omega

theorem sumOf_sub {f : AccountId → U128} {v : U128} (h : v ≤ f a) :
    sumOf (Function.update f a (f a - v)) + v.toNat = sumOf f := by
  have hsum := sumOf_update f a (f a - v)
  have hle := BitVec.le_def.mp h
  rw [BitVec.toNat_sub_of_le h] at hsum
  omega

theorem le_sumOf (f : AccountId → U128) (a : AccountId) : (f a).toNat ≤ sumOf f := by
  unfold sumOf
  exact Finset.single_le_sum (f := fun x => (f x).toNat) (fun _ _ => Nat.zero_le _)
    (Finset.mem_univ a)

namespace Books

/-- The supply is what the accounts hold. -/
def Balanced (b : Books) : Prop := sumOf b.balance = b.supply.toNat

variable {b b' : Books} {ctx : HostContext}

theorem Balanced.le_supply (h : b.Balanced) (a : AccountId) :
    (b.balance a).toNat ≤ b.supply.toNat :=
  (le_sumOf b.balance a).trans h.le

theorem Balanced.congr (h : b.Balanced) (hbalance : b'.balance = b.balance)
    (hsupply : b'.supply = b.supply) : b'.Balanced := by
  unfold Balanced
  rw [hbalance, hsupply]
  exact h

theorem Balanced.mint (h : b.Balanced)
    (hfits : b.MintFits account amount) : (b.mint account amount).Balanced := by
  unfold Balanced at h ⊢
  change sumOf (Function.update b.balance account (b.balance account + amount)) =
    (b.supply + amount).toNat
  rw [sumOf_add hfits.balance, hfits.supply.toNat_add, h]

theorem Balanced.sync (h : b.Balanced) (hfits : b.SyncFits ctx) : (b.sync ctx).Balanced :=
  h.mint hfits.mint

theorem Balanced.move {source dest : AccountId} (h : b.Balanced)
    (hfunds : amount ≤ b.balance source) (hfits : b.MoveFits source dest amount) :
    (b.move source dest amount).Balanced := by
  have htaken := sumOf_sub hfunds
  have hgiven := sumOf_add hfits
  unfold Balanced at h ⊢
  change sumOf (Function.update _ dest _) = b.supply.toNat
  rw [hgiven, htaken, h]

theorem Balanced.burn (h : b.Balanced)
    (hfunds : amount ≤ b.balance account) (owed : U128) (now : U64) :
    (b.burn account amount owed now).Balanced := by
  have htaken := sumOf_sub hfunds
  have hle : amount ≤ b.supply :=
    BitVec.le_def.mpr ((BitVec.le_def.mp hfunds).trans (h.le_supply account))
  unfold Balanced at h ⊢
  change sumOf (Function.update b.balance account (b.balance account - amount)) =
    (b.supply - amount).toNat
  rw [BitVec.toNat_sub_of_le hle]
  omega

/-! ## The tokens of the dead address -/

/-- Tokens are where the supply says, and those of the dead address are
locked once there are any. -/
structure Sound (b : Books) : Prop where
  balanced : b.Balanced
  allowance : ∀ spender, b.allowance deadAddress spender = 0#128
  locked : b.supply = 0#128 ∨ 1000 ≤ (b.balance deadAddress).toNat

/-- What changes the books without touching the tokens. -/
theorem Sound.congr (h : b.Sound) (hbalance : b'.balance = b.balance)
    (hallowance : b'.allowance = b.allowance) (hsupply : b'.supply = b.supply) : b'.Sound where
  balanced := h.balanced.congr hbalance hsupply
  allowance := by
    rw [hallowance]
    exact h.allowance
  locked := by
    rw [hbalance, hsupply]
    exact h.locked

theorem balance_mint_le (hfits : b.MintFits account amount)
    (a : AccountId) : (b.balance a).toNat ≤ ((b.mint account amount).balance a).toNat := by
  change _ ≤ (Function.update b.balance account (b.balance account + amount) a).toNat
  by_cases ha : a = account
  · subst ha
    rw [Function.update_self, hfits.balance.toNat_add]
    exact Nat.le_add_right _ _
  · rw [Function.update_of_ne ha]

theorem balance_move_le {source dest : AccountId}
    (hfits : b.MoveFits source dest amount) (ha : a ≠ source ∨ amount = 0#128) :
    (b.balance a).toNat ≤ ((b.move source dest amount).balance a).toNat := by
  have htaken : b.balance a = Function.update b.balance source (b.balance source - amount) a := by
    by_cases hsource : a = source
    · obtain hne | rfl := ha
      · exact absurd hsource hne
      · rw [hsource, Function.update_self, BitVec.sub_zero]
    · rw [Function.update_of_ne hsource]
  unfold MoveFits at hfits
  change _ ≤ (Function.update (Function.update b.balance source _) dest _ a).toNat
  rw [htaken]
  generalize Function.update b.balance source (b.balance source - amount) = taken at hfits ⊢
  by_cases hdest : a = dest
  · subst hdest
    rw [Function.update_self, hfits.toNat_add]
    exact Nat.le_add_right _ _
  · rw [Function.update_of_ne hdest]

/-- Minting when there are tokens. -/
theorem Sound.mint (h : b.Sound)
    (hfits : b.MintFits account amount) (hamount : b.supply = 0#128 → amount = 0#128) :
    (b.mint account amount).Sound where
  balanced := h.balanced.mint hfits
  allowance := h.allowance
  locked := by
    obtain hzero | hlocked := h.locked
    · left
      change b.supply + amount = 0#128
      rw [hzero, hamount hzero]
      rfl
    · exact .inr (hlocked.trans (balance_mint_le hfits _))

theorem Sound.sync (h : b.Sound) (hfits : b.SyncFits ctx) : (b.sync ctx).Sound := by
  have hminted := h.mint hfits.mint fun hzero => by
    rw [rewardMint, hzero, feeMint, if_neg (by simp)]
  exact hminted.congr rfl rfl rfl

theorem sound_empty : (books ∅).Sound where
  balanced := by
    unfold Balanced sumOf
    exact Finset.sum_eq_zero fun _ _ => rfl
  allowance _ := rfl
  locked := .inl rfl

end Books

/-! ## What a call does to the tokens -/

variable {ctx : HostContext} {b b' : Books} {method : Option Method} {calls : List PendingCall}
  {transfers : List NativeTransfer} {op : AccountId}

/-- The tokens that the first deposit burns fit, as there are no others. -/
theorem Books.mintFits_bootstrap (hsupply : b.supply = 0#128)
    (hdead : Fits (b.balance deadAddress) bootstrapBurn) :
    b.MintFits deadAddress bootstrapBurn := by
  refine ⟨hdead, ?_⟩
  rw [hsupply]
  exact Nat.lt_of_le_of_lt (Nat.zero_add _).le bootstrapBurn.isLt

theorem DepositMint.balanced {value : U128} (h : DepositMint value b b' amount)
    (hb : b.Balanced) : b'.Balanced := by
  cases h with
  | first hsupply _ hdead => exact hb.mint (Books.mintFits_bootstrap hsupply hdead)
  | later => exact hb

theorem Deposited.balanced (h : Deposited ctx b op b') (hb : b.Balanced) : b'.Balanced := by
  cases h with
  | intro _ _ hmint hfits _ => exact ((hmint.balanced hb).mint hfits).congr rfl rfl

theorem DepositMint.sound {value : U128}
    (h : DepositMint value b b' amount) (hb : b.Sound) (hfits : b'.MintFits account amount) :
    (b'.mint account amount).Sound ∧
      (b.balance deadAddress).toNat ≤ ((b'.mint account amount).balance deadAddress).toNat ∧
      1000 ≤ ((b'.mint account amount).balance deadAddress).toNat := by
  cases h with
  | first hsupply hvalue hdead =>
    have hburn := Books.mintFits_bootstrap hsupply hdead
    have hkept := Books.balance_mint_le hfits deadAddress
    have hburned : ((b.mint deadAddress bootstrapBurn).balance deadAddress).toNat =
        (b.balance deadAddress).toNat + 1000 := by
      change (Function.update b.balance deadAddress (b.balance deadAddress + bootstrapBurn)
        deadAddress).toNat = _
      rw [Function.update_self, hdead.toNat_add]
      rfl
    have hlocked := (Nat.le_add_left _ _).trans (hburned.symm.le.trans hkept)
    refine ⟨⟨(hb.balanced.mint hburn).mint hfits, hb.allowance, .inr hlocked⟩, ?_, hlocked⟩
    exact (Books.balance_mint_le hburn deadAddress).trans hkept
  | later hsupply hpool hmint =>
    have hkept := Books.balance_mint_le hfits deadAddress
    have hlocked := (hb.locked.resolve_left hsupply).trans hkept
    exact ⟨hb.mint hfits fun hzero => absurd hzero hsupply, hkept, hlocked⟩

theorem Deposited.sound (h : Deposited ctx b op b') (hb : b.Sound) :
    b'.Sound ∧ (b.balance deadAddress).toNat ≤ (b'.balance deadAddress).toNat ∧
      1000 ≤ (b'.balance deadAddress).toNat := by
  cases h with
  | intro hvalue hdelegable hmint hfits hpooled =>
    obtain ⟨hsound, hle, hlocked⟩ := hmint.sound hb hfits
    exact ⟨hsound.congr rfl rfl rfl, hle, hlocked⟩

theorem Acted.sound (h : Acted ctx b method b' calls transfers)
    (hcaller : ctx.caller ≠ deadAddress) (hb : b.Sound) :
    b'.Sound ∧ (b.balance deadAddress).toNat ≤ (b'.balance deadAddress).toNat := by
  cases h with
  | nothing => exact ⟨hb, Nat.le_refl _⟩
  | deposited h => exact ⟨(h.sound hb).1, (h.sound hb).2.1⟩
  | @requested burn pendingUndelegate hburn hsupply howed hfits hsum =>
    have hdead : (Function.update b.balance ctx.caller (b.balance ctx.caller - burn)
        deadAddress).toNat = (b.balance deadAddress).toNat := by
      rw [Function.update_of_ne hcaller.symm]
    refine ⟨⟨hb.balanced.burn hburn 0#128 0#64, hb.allowance, .inr ?_⟩, hdead.symm.le⟩
    exact (hb.locked.resolve_left hsupply).trans hdead.symm.le
  | cranked hpop hmatured hbuffer hseen hpush =>
    have hbooks := hpush.frame
    rw [hpop.frame] at hbooks
    rw [hbooks]
    exact ⟨hb.congr rfl rfl rfl, Nat.le_refl _⟩
  | claimed => exact ⟨hb.congr rfl rfl rfl, Nat.le_refl _⟩
  | settled => exact ⟨hb.congr rfl rfl rfl, Nat.le_refl _⟩
  | recompounded => exact ⟨hb.congr rfl rfl rfl, Nat.le_refl _⟩

theorem Booked.sound (h : Booked ctx b method b' calls transfers)
    (hcaller : ctx.caller ≠ deadAddress) (hb : b.Sound) :
    b'.Sound ∧ (b.balance deadAddress).toNat ≤ (b'.balance deadAddress).toNat := by
  cases h with
  | configured h =>
    rw [h.eq]
    exact ⟨hb.congr rfl rfl rfl, Nat.le_refl _⟩
  | approved spender amount =>
    refine ⟨⟨hb.balanced, fun x => ?_, hb.locked⟩, Nat.le_refl _⟩
    change Function.update b.allowance ctx.caller _ deadAddress x = 0#128
    rw [Function.update_of_ne hcaller.symm]
    exact hb.allowance x
  | moved hfunds hfits =>
    have hle := Books.balance_move_le hfits (.inl hcaller.symm)
    exact ⟨⟨hb.balanced.move hfunds hfits, hb.allowance, hb.locked.imp_right (·.trans hle)⟩, hle⟩
  | @movedFrom source dest amount hallowed hfunds hfits =>
    have hzero : source = deadAddress → amount = 0#128 := by
      rintro rfl
      rw [hb.allowance] at hallowed
      exact BitVec.le_zero_iff.mp hallowed
    have hle : (b.balance deadAddress).toNat ≤
        ((b.move source dest amount).balance deadAddress).toNat := by
      refine Books.balance_move_le hfits ?_
      by_cases hsource : source = deadAddress
      · exact .inr (hzero hsource)
      · exact .inl (Ne.symm hsource)
    refine ⟨⟨hb.balanced.move hfunds hfits, fun x => ?_, hb.locked.imp_right (·.trans hle)⟩, hle⟩
    change Function.update b.allowance source
      (Function.update (b.allowance source) ctx.caller _) deadAddress x = 0#128
    by_cases hsource : deadAddress = source
    · subst hsource
      rw [Function.update_self, hzero rfl, BitVec.sub_zero, Function.update_eq_self]
      exact hb.allowance x
    · rw [Function.update_of_ne hsource]
      exact hb.allowance x
  | slashed => exact ⟨hb.congr rfl rfl rfl, Nat.le_refl _⟩
  | synced hfits h =>
    obtain ⟨hsound, hle⟩ := h.sound hcaller (hb.sync hfits)
    exact ⟨hsound, (Books.balance_mint_le hfits.mint deadAddress).trans hle⟩

/-! ## Runs -/

/-- The contract over time, and whether a deposit was made. -/
structure TokenRun where
  storage : Store
  deposited : Bool

/-- A call that is kept, with an allowed outcome, or one that is undone. No
sum of a call that is kept reaches `2 ^ 128`. -/
inductive TokenStep (allowed : Outcome → Prop) : TokenRun → TokenRun → Prop where
  | kept {run : TokenRun} {ctx : HostContext} {tank : Tank} {input : Bytes} {o : Outcome}
      (hstorage : ctx.storage = run.storage) (hcaller : ctx.caller ≠ deadAddress)
      (hcall : call ctx tank input = .ok o) (hfits : o.frame.overflowed = false)
      (hallowed : allowed o) :
      TokenStep allowed run ⟨o.frame.storage,
        run.deposited || (methodOf input == some .deposit && o.data == ascii "ok")⟩
  | undone (run : TokenRun) : TokenStep allowed run run

/-- The fuel covered every request of the call. -/
abbrev Outcome.Paid (o : Outcome) : Prop := o.refused = false

/-- What holds in every state of a run. -/
structure TokenRun.Good (run : TokenRun) : Prop where
  sound : (books run.storage).Sound
  locked : run.deposited = true → 1000 ≤ ((books run.storage).balance deadAddress).toNat

theorem TokenStep.good {run run' : TokenRun} (h : TokenStep Outcome.Paid run run')
    (hgood : run.Good) : run'.Good := by
  cases h with
  | undone => exact hgood
  | @kept ctx tank input o hstorage hcaller hcall hfits hpaid =>
    obtain ⟨hsound, hle⟩ := (call_booked hcall hpaid hfits).sound hcaller (by
      rw [hstorage]
      exact hgood.sound)
    refine ⟨hsound, fun hdeposited => ?_⟩
    obtain hbefore | hnow := Bool.or_eq_true_iff.mp hdeposited
    · rw [hstorage] at hle
      exact (hgood.locked hbefore).trans hle
    · obtain ⟨hmethod, hdata⟩ := Bool.and_eq_true_iff.mp hnow
      rw [beq_iff_eq] at hmethod hdata
      obtain ⟨op, hsync, hdeposit⟩ := call_deposited hcall hpaid hdata hmethod hfits
      rw [hstorage] at hsync hdeposit
      exact (hdeposit.sound (hgood.sound.sync hsync)).2.2

theorem TokenRun.good {run : TokenRun}
    (hrun : Relation.ReflTransGen (TokenStep Outcome.Paid) ⟨∅, false⟩ run) : run.Good := by
  induction hrun with
  | refl => exact ⟨Books.sound_empty, nofun⟩
  | tail _ hstep ih => exact hstep.good ih

section Scripts

variable {allowed : Outcome → Prop} [DecidablePred allowed]

/-- A script of calls by others than the dead address. -/
theorem play_tokenRun {l : List Turn} {m m' : Store}
    (h : play (fun ctx _ o => ctx.caller ≠ deadAddress ∧ allowed o) l m = some m')
    (deposited : Bool) :
    Relation.ReflTransGen (TokenStep allowed) ⟨m, deposited⟩
      ⟨m', deposited || l.any fun t => methodOf t.input == some .deposit⟩ := by
  induction l generalizing m deposited with
  | nil =>
    cases h
    rw [List.any_nil, Bool.or_false]
  | cons t rest ih =>
    obtain ⟨o, hcall, hdata, hfits, ⟨hcaller, hallowed⟩, hrest⟩ := play_cons h
    have hstep := @TokenStep.kept allowed ⟨m, deposited⟩ (t.context m) t.tank t.input o rfl
      hcaller hcall hfits hallowed
    rw [hdata, beq_self_eq_true, Bool.and_true] at hstep
    rw [List.any_cons, ← Bool.or_assoc]
    exact .head hstep (ih hrest _)

end Scripts

/-- The supply is the sum of all balances, in every state of every run from
an empty storage whose calls have the fuel for their requests; after the
first deposit it is at least a thousand. -/
theorem supply_eq_sum_balances {run : TokenRun}
    (hrun : Relation.ReflTransGen (TokenStep fun o => o.refused = false) ⟨∅, false⟩ run) :
    (books run.storage).supply.toNat = ∑ a, ((books run.storage).balance a).toNat ∧
      (run.deposited = true → 1000 ≤ (books run.storage).supply.toNat) := by
  have hgood := TokenRun.good hrun
  refine ⟨hgood.sound.balanced.symm, fun hdeposited => ?_⟩
  exact (hgood.locked hdeposited).trans (hgood.sound.balanced.le_supply _)

/-- A pool with a first deposit of twenty thousand. -/
theorem supply_eq_sum_balances_deposited :
    ∃ run, Relation.ReflTransGen (TokenStep fun o => o.refused = false) ⟨∅, false⟩ run ∧
      run.deposited = true ∧
      (books run.storage).supply.toNat = ∑ a, ((books run.storage).balance a).toNat ∧
      1000 ≤ (books run.storage).supply.toNat := by
  obtain ⟨m, hplay, -⟩ := exists_play (a := ())
    (fun ctx _ o => ctx.caller ≠ deadAddress ∧ o.refused = false)
    (opening 20000#128) ∅ (fun _ => ()) (by decide +kernel)
  have hrun := play_tokenRun hplay false
  have hdeposited : (false || (opening 20000#128).any
      fun t => methodOf t.input == some .deposit) = true := by decide +kernel
  obtain ⟨hsum, hmin⟩ := supply_eq_sum_balances hrun
  exact ⟨_, hrun, hdeposited, hsum, hmin hdeposited⟩

/-- A request for fifteen thousand whose fuel runs out at the write of the
balance: the next write, of the supply, is shorter and is still covered. -/
def shortRequest : Turn := asking 15000#128 12640

/-- A withdrawal short of fuel takes the supply down and leaves the balance,
which is then more than there is. -/
theorem supply_ne_sum_balances :
    ¬ ∀ run, Relation.ReflTransGen (TokenStep fun _ => True) ⟨∅, false⟩ run →
      (books run.storage).supply.toNat = ∑ a, ((books run.storage).balance a).toNat ∧
        (run.deposited = true → 1000 ≤ (books run.storage).supply.toNat) := by
  intro h
  obtain ⟨m, hplay, hview⟩ := exists_play
    (a := (5000, 19000)) (fun ctx _ _ => ctx.caller ≠ deadAddress ∧ True)
    (opening 20000#128 ++ [shortRequest]) ∅
    (fun m => ((books m).supply.toNat, ((books m).balance (Hash.repeated 1)).toNat))
    (by decide +kernel)
  obtain ⟨hsupply, hbalance⟩ := Prod.mk.inj hview
  have hsum := (h _ (play_tokenRun hplay false)).1
  have hle := le_sumOf (books m).balance (Hash.repeated 1)
  change (books m).supply.toNat = sumOf (books m).balance at hsum
  omega

/-! ## The exchange rate -/

/-- The pool per token is at least as high in `b'` as in `b`. -/
def Books.RateLe (b b' : Books) : Prop :=
  b.pooled.toNat * b'.supply.toNat ≤ b'.pooled.toNat * b.supply.toNat

theorem Books.RateLe.of_eq (hpooled : b'.pooled = b.pooled) (hsupply : b'.supply = b.supply) :
    b.RateLe b' := by
  unfold Books.RateLe
  rw [hpooled, hsupply]

theorem Books.RateLe.trans {b₁ b₂ b₃ : Books} (hsupply : b₂.supply ≠ 0#128)
    (h : b₁.RateLe b₂) (h' : b₂.RateLe b₃) : b₁.RateLe b₃ := by
  unfold Books.RateLe at h h' ⊢
  refine Nat.le_of_mul_le_mul_right ?_ (toNat_pos hsupply)
  calc b₁.pooled.toNat * b₃.supply.toNat * b₂.supply.toNat
      = b₁.pooled.toNat * b₂.supply.toNat * b₃.supply.toNat := by ring
    _ ≤ b₂.pooled.toNat * b₁.supply.toNat * b₃.supply.toNat := Nat.mul_le_mul_right _ h
    _ = b₂.pooled.toNat * b₃.supply.toNat * b₁.supply.toNat := by ring
    _ ≤ b₃.pooled.toNat * b₂.supply.toNat * b₁.supply.toNat := Nat.mul_le_mul_right _ h'
    _ = b₃.pooled.toNat * b₁.supply.toNat * b₂.supply.toNat := by ring

/-- A quotient with a product that may saturate, times the divisor. -/
theorem satMul_div_mul_le (x y z : U128) :
    (satMul x y / z).toNat * z.toNat ≤ x.toNat * y.toNat := by
  rw [BitVec.toNat_udiv, toNat_satMul]
  exact (Nat.div_mul_le_self _ _).trans (Nat.min_le_left _ _)

/-- With a fee of at most a fifth, at least as much grows the pool as is
taken. -/
theorem Books.feeSolen_le_growth (hfee : b.feeBps ≤ feeBpsHardCap) :
    (b.feeSolen ctx).toNat ≤ (b.growth ctx).toNat := by
  have hbps : (b.feeBps.setWidth 128).toNat ≤ 2000 := by
    rw [BitVec.toNat_setWidth_of_le (by decide)]
    exact BitVec.le_def.mp hfee
  have hmul : (b.feeSolen ctx).toNat * 10000 ≤ (b.inflow ctx).toNat * 2000 :=
    (satMul_div_mul_le _ _ 10000#128).trans (Nat.mul_le_mul_left _ hbps)
  have hle : b.feeSolen ctx ≤ b.inflow ctx := BitVec.le_def.mpr (by omega)
  rw [Books.growth, BitVec.toNat_sub_of_le hle]
  omega

theorem feeMint_mul_le (feeSolen poolAfter supply : U128) :
    (feeMint feeSolen poolAfter supply).toNat * poolAfter.toNat ≤
      feeSolen.toNat * supply.toNat := by
  unfold feeMint
  split
  · exact satMul_div_mul_le _ _ _
  · exact (Nat.zero_mul _).le.trans (Nat.zero_le _)

/-- Taking rewards in never lowers the rate: the fee is minted at the new
rate. -/
theorem Books.rateLe_sync (hfee : b.feeBps ≤ feeBpsHardCap) (hfits : b.SyncFits ctx) :
    b.RateLe (b.sync ctx) := by
  have hpool : (b.pooled + b.growth ctx).toNat = b.pooled.toNat + (b.growth ctx).toNat :=
    hfits.pooled.toNat_add
  have hsupply : (b.supply + b.rewardMint ctx).toNat = b.supply.toNat + (b.rewardMint ctx).toNat :=
    hfits.mint.supply.toNat_add
  have hmint := feeMint_mul_le (b.feeSolen ctx) (b.pooled + b.growth ctx) b.supply
  have hgrowth : (b.feeSolen ctx).toNat * b.supply.toNat ≤
      (b.growth ctx).toNat * b.supply.toNat :=
    Nat.mul_le_mul_right _ (Books.feeSolen_le_growth hfee)
  change b.pooled.toNat * (b.supply + b.rewardMint ctx).toNat ≤
    (b.pooled + b.growth ctx).toNat * b.supply.toNat
  change (b.rewardMint ctx).toNat * _ ≤ _ at hmint
  rw [hpool] at hmint ⊢
  rw [hsupply, Nat.mul_add, Nat.add_mul]
  have hpart : b.pooled.toNat * (b.rewardMint ctx).toNat ≤
      (b.rewardMint ctx).toNat * (b.pooled.toNat + (b.growth ctx).toNat) := by
    rw [Nat.mul_add, Nat.mul_comm]
    exact Nat.le_add_right _ _
  omega

/-- A deposit into a pool with tokens is at the current rate or worse. -/
theorem Deposited.rateLe (h : Deposited ctx b op b') (hsupply : b.supply ≠ 0#128) :
    b.RateLe b' := by
  cases h with
  | intro hvalue hdelegable hmint hfits hpooled =>
    cases hmint with
    | first hzero => exact absurd hzero hsupply
    | later _ hpool hmint =>
      have hle := satMul_div_mul_le ctx.msgValue b.supply b.pooled
      change b.pooled.toNat * (b.supply + _).toNat ≤ (b.pooled + _).toNat * b.supply.toNat
      rw [hfits.supply.toNat_add, hpooled.toNat_add, Nat.mul_add, Nat.add_mul,
        Nat.mul_comm b.pooled.toNat (satMul _ _ / _).toNat]
      omega

/-- A withdrawal takes at most its share. -/
theorem Books.rateLe_burn (hbalanced : b.Balanced) (hsupply : b.supply ≠ 0#128)
    (hfunds : amount ≤ b.balance account) (now : U64) :
    b.RateLe (b.burn account amount (satMul amount b.pooled / b.supply) now) := by
  have hamount : amount.toNat ≤ b.supply.toNat :=
    (BitVec.le_def.mp hfunds).trans (hbalanced.le_supply account)
  have hshare := satMul_div_mul_le amount b.pooled b.supply
  generalize satMul amount b.pooled / b.supply = owed at hshare ⊢
  have howed : owed.toNat ≤ b.pooled.toNat := by
    refine Nat.le_of_mul_le_mul_right (hshare.trans ?_) (toNat_pos hsupply)
    rw [Nat.mul_comm]
    exact Nat.mul_le_mul_left _ hamount
  change b.pooled.toNat * (b.supply - amount).toNat ≤ (b.pooled - owed).toNat * b.supply.toNat
  rw [BitVec.toNat_sub_of_le (BitVec.le_def.mpr hamount),
    BitVec.toNat_sub_of_le (BitVec.le_def.mpr howed), Nat.mul_sub, Nat.sub_mul,
    Nat.mul_comm b.pooled.toNat amount.toNat]
  exact Nat.sub_le_sub_left hshare _

theorem Acted.rateLe (h : Acted ctx b method b' calls transfers) (hbalanced : b.Balanced)
    (hsupply : b.supply ≠ 0#128) : b.RateLe b' ∧ b'.feeBps = b.feeBps := by
  cases h with
  | nothing => exact ⟨.of_eq rfl rfl, rfl⟩
  | deposited h =>
    refine ⟨h.rateLe hsupply, ?_⟩
    cases h with
    | intro _ _ hmint =>
      cases hmint <;> rw [Books.delegate, Books.mint]
      rw [Books.mint]
  | requested hburn _ _ _ _ =>
    exact ⟨Books.rateLe_burn hbalanced hsupply hburn (epochOf ctx), rfl⟩
  | cranked hpop hmatured hbuffer hseen hpush =>
    have hbooks := hpush.frame
    rw [hpop.frame] at hbooks
    rw [hbooks]
    exact ⟨.of_eq rfl rfl, rfl⟩
  | claimed => exact ⟨.of_eq rfl rfl, rfl⟩
  | settled => exact ⟨.of_eq rfl rfl, rfl⟩
  | recompounded => exact ⟨.of_eq rfl rfl, rfl⟩

/-- A call other than a slash report, from books with tokens. -/
theorem Booked.rateLe (h : Booked ctx b method b' calls transfers)
    (hmethod : method ≠ some .reportSlash) (hbalanced : b.Balanced)
    (hfee : b.feeBps ≤ feeBpsHardCap) (hsupply : b.supply ≠ 0#128) :
    b.RateLe b' ∧ b'.feeBps ≤ feeBpsHardCap := by
  cases h with
  | configured h =>
    refine ⟨?_, ?_⟩
    · rw [h.eq]
      exact .of_eq rfl rfl
    · obtain heq | hle := h.feeBps
      · rw [heq]
        exact hfee
      · exact hle
  | approved => exact ⟨.of_eq rfl rfl, hfee⟩
  | moved => exact ⟨.of_eq rfl rfl, hfee⟩
  | movedFrom => exact ⟨.of_eq rfl rfl, hfee⟩
  | slashed => exact absurd rfl hmethod
  | synced hfits h =>
    have hsupply' := Books.supply_sync_ne_zero hsupply hfits
    obtain ⟨hrate, hfee'⟩ := h.rateLe (hbalanced.sync hfits) hsupply'
    refine ⟨(Books.rateLe_sync hfee hfits).trans hsupply' hrate, ?_⟩
    rw [hfee']
    exact hfee

/-- Balances stay in line with the supply, whoever calls. -/
theorem Acted.balanced (h : Acted ctx b method b' calls transfers) (hb : b.Balanced) :
    b'.Balanced := by
  cases h with
  | nothing => exact hb
  | deposited h => exact h.balanced hb
  | requested hburn _ _ _ _ => exact (hb.burn hburn 0#128 0#64).congr rfl rfl
  | cranked hpop hmatured hbuffer hseen hpush =>
    have hbooks := hpush.frame
    rw [hpop.frame] at hbooks
    rw [hbooks]
    exact hb
  | claimed => exact hb
  | settled => exact hb
  | recompounded => exact hb

theorem Booked.balanced (h : Booked ctx b method b' calls transfers) (hb : b.Balanced) :
    b'.Balanced := by
  cases h with
  | configured h =>
    rw [h.eq]
    exact hb
  | approved => exact hb
  | moved hfunds hfits => exact hb.move hfunds hfits
  | movedFrom _ hfunds hfits => exact hb.move hfunds hfits
  | slashed => exact hb
  | synced hfits h => exact h.balanced (hb.sync hfits)

/-- From balances that add up to a positive supply, and as long as the
supply stays positive and the fuel covers every request, the rate never
falls. -/
theorem rate_never_falls {m m' : Store}
    (hbalanced : (books m).supply.toNat = ∑ a, ((books m).balance a).toNat)
    (hsupply : (books m).supply ≠ 0#128) (hfee : (books m).feeBps ≤ 2000#64)
    (hrun : Relation.ReflTransGen (CallStep fun _ input o =>
      methodOf input ≠ some .reportSlash ∧ o.refused = false ∧
        (books o.frame.storage).supply ≠ 0#128) m m') :
    (books m).pooled.toNat * (books m').supply.toNat ≤
      (books m').pooled.toNat * (books m).supply.toNat := by
  have hinv : (books m').Balanced ∧ (books m').supply ≠ 0#128 ∧
      (books m').feeBps ≤ feeBpsHardCap ∧ (books m).RateLe (books m') := by
    induction hrun with
    | refl =>
        refine ⟨hbalanced.symm, hsupply, ?_, .of_eq rfl rfl⟩
        rw [feeBpsHardCap]
        exact hfee
    | tail _ hstep ih =>
        obtain ⟨hb, hs, hf, hrate⟩ := ih
        cases hstep with
        | undone => exact ⟨hb, hs, hf, hrate⟩
        | kept hcall hfits hallowed =>
            have hbooked := call_booked hcall hallowed.2.1 hfits
            obtain ⟨hrate', hf'⟩ := hbooked.rateLe hallowed.1 hb hf hs
            exact ⟨hbooked.balanced hb, hallowed.2.2, hf', hrate.trans hs hrate'⟩
  exact hinv.2.2.2

/-- A withdrawal of five hundred from a pool of twenty thousand. -/
theorem rate_never_falls_request :
    ∃ m m' : Store, (books m).supply.toNat = ∑ a, ((books m).balance a).toNat ∧
      (books m).supply ≠ 0#128 ∧ (books m).feeBps ≤ 2000#64 ∧
      (books m').supply.toNat = 19500 ∧
      Relation.ReflTransGen (CallStep fun _ input o =>
        methodOf input ≠ some .reportSlash ∧ o.refused = false ∧
          (books o.frame.storage).supply ≠ 0#128) m m' ∧
      (books m).pooled.toNat * (books m').supply.toNat ≤
        (books m').pooled.toNat * (books m).supply.toNat := by
  obtain ⟨m, m', hplay, hplay', hfacts⟩ := exists_play_twice (a := true)
    (fun ctx _ o => ctx.caller ≠ deadAddress ∧ o.refused = false)
    (fun _ input o => methodOf input ≠ some .reportSlash ∧ o.refused = false ∧
      (books o.frame.storage).supply ≠ 0#128)
    (opening 20000#128) [asking 500#128 1000000] ∅
    (fun m m' => decide ((books m).supply ≠ 0#128 ∧ (books m).feeBps ≤ 2000#64 ∧
      (books m').supply.toNat = 19500)) (by decide +kernel)
  have hbalanced := (TokenRun.good (play_tokenRun hplay false)).sound.balanced.symm
  obtain ⟨hsupply, hcapped, hsupply'⟩ := of_decide_eq_true hfacts
  exact ⟨m, m', hbalanced, hsupply, hcapped, hsupply', play_run hplay',
    rate_never_falls hbalanced hsupply hcapped (play_run hplay')⟩

/-- One token in a pool of five, and an account that holds `held`. -/
def skewedStore (held : U128) : Store :=
  ((((((∅ : Store).insert (Key.field .totalSupply).bytes (le128 1#128)).insert
    (Key.field .totalPooledSolen).bytes (le128 5#128)).insert
    (Key.field .opCount).bytes (le64 1#64)).insert
    (Key.op 0#64).bytes (Hash.repeated 2).bytes).insert
    (Key.opStake (Hash.repeated 2)).bytes (le128 5#128)).insert
    (Key.balance (Hash.repeated 1)).bytes (le128 held)

theorem skewedStore_balanced :
    ((books (skewedStore 1#128)).supply).toNat =
      ∑ a, ((books (skewedStore 1#128)).balance a).toNat := by
  have hempty : sumOf (books ∅).balance = 0 := Books.sound_empty.balanced
  have hsum := sumOf_update (books ∅).balance (Hash.repeated 1) 1#128
  have hzero : ((books ∅).balance (Hash.repeated 1)).toNat = 0 := rfl
  have hone : (1#128).toNat = 1 := rfl
  have hbalance : (books (skewedStore 1#128)).balance =
      Function.update (books ∅).balance (Hash.repeated 1) 1#128 := by
    simp only [skewedStore, books_insert, Books.put, readU128_le128, Option.getD_some]
  have hsupply : ((books (skewedStore 1#128)).supply).toNat = 1 := by decide +kernel
  change _ = sumOf (books (skewedStore 1#128)).balance
  rw [hbalance, hsupply]
  omega

/-- The rate falls in a run from an empty storage: after a withdrawal short
of fuel the holder still has tokens that the supply lacks, and burning them
makes supply and pool wrap. With fuel for every request it falls when the
last token is burned and a new first deposit is made, and when an account
holds more than there is, which no run from an empty storage comes to. -/
theorem rate_falls :
    (¬ ∀ m m' : Store,
      Relation.ReflTransGen (CallStep fun _ input _ => methodOf input ≠ some .reportSlash) ∅ m →
      (books m).supply ≠ 0#128 → (books m).feeBps ≤ 2000#64 →
      Relation.ReflTransGen (CallStep fun _ input o => methodOf input ≠ some .reportSlash ∧
        (books o.frame.storage).supply ≠ 0#128) m m' →
      (books m).pooled.toNat * (books m').supply.toNat ≤
        (books m').pooled.toNat * (books m).supply.toNat) ∧
    (¬ ∀ m m' : Store, (books m).supply.toNat = ∑ a, ((books m).balance a).toNat →
      (books m).supply ≠ 0#128 → (books m).feeBps ≤ 2000#64 →
      Relation.ReflTransGen (CallStep fun _ input o =>
        methodOf input ≠ some .reportSlash ∧ o.refused = false) m m' →
      (books m).pooled.toNat * (books m').supply.toNat ≤
        (books m').pooled.toNat * (books m).supply.toNat) ∧
    ¬ ∀ m m' : Store, (books m).supply ≠ 0#128 → (books m).feeBps ≤ 2000#64 →
      Relation.ReflTransGen (CallStep fun _ input o => methodOf input ≠ some .reportSlash ∧
        o.refused = false ∧ (books o.frame.storage).supply ≠ 0#128) m m' →
      (books m).pooled.toNat * (books m').supply.toNat ≤
        (books m').pooled.toNat * (books m).supply.toNat := by
  let burnAll (held : U128) : Turn := { asking held 1000000 with balance := 0#128 }
  let falls (m m' : Store) : Bool := decide ((books m).supply ≠ 0#128 ∧
    (books m).feeBps ≤ 2000#64 ∧ (books m').pooled.toNat * (books m).supply.toNat <
      (books m).pooled.toNat * (books m').supply.toNat)
  refine ⟨fun h => ?_, fun h => ?_, fun h => ?_⟩
  · obtain ⟨m, m', hplay, hplay', hfalls⟩ := exists_play_twice (a := true)
      (fun _ input _ => methodOf input ≠ some .reportSlash)
      (fun _ input o => methodOf input ≠ some .reportSlash ∧
        (books o.frame.storage).supply ≠ 0#128)
      (opening 20000#128) [shortRequest, asking 19000#128 1000000] ∅ falls (by decide +kernel)
    obtain ⟨hsupply, hcapped, hlt⟩ := of_decide_eq_true hfalls
    exact Nat.not_lt.mpr (h m m' (play_run hplay) hsupply hcapped (play_run hplay')) hlt
  · obtain ⟨m', hplay, hfalls⟩ := exists_play (a := true)
      (fun _ input o => methodOf input ≠ some .reportSlash ∧ o.refused = false)
      [burnAll 1#128, ⟨Hash.repeated 1, 20000#128, 20000#128, inputOf "deposit" [], 1000000⟩]
      (skewedStore 1#128) (falls (skewedStore 1#128)) (by decide +kernel)
    obtain ⟨hsupply, hcapped, hlt⟩ := of_decide_eq_true hfalls
    exact Nat.not_lt.mpr (h _ m' skewedStore_balanced hsupply hcapped (play_run hplay)) hlt
  · obtain ⟨m', hplay, hfalls⟩ := exists_play (a := true)
      (fun _ input o => methodOf input ≠ some .reportSlash ∧ o.refused = false ∧
        (books o.frame.storage).supply ≠ 0#128)
      [burnAll 2#128] (skewedStore 2#128) (falls (skewedStore 2#128)) (by decide +kernel)
    obtain ⟨hsupply, hcapped, hlt⟩ := of_decide_eq_true hfalls
    exact Nat.not_lt.mpr (h _ m' hsupply hcapped (play_run hplay)) hlt

end Solen.StSolen
