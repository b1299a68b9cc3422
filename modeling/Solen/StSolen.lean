import Solen.StSolenHost
import Solen.SystemCall

/-!
# The stSOLEN contract

A liquid staking token: deposits are delegated to a list of operators, and
holders get tokens for their share of the pool. The contract is a program
over the host functions; every method ends with the data it returns, or
traps.

A text that starts with `err:` is returned like any other data: what the
method wrote before stays. Only a trap, or a queued call that fails later,
undoes a call. A storage request that the fuel does not pay for is neither:
the method goes on as if nothing had happened.

Sums of amounts wrap, as in the compiled contract. A frame keeps a note for
specifications of whether one did.
-/

namespace Solen.StSolen

open Machine

/-! ## Constants -/

def epochLengthBlocks : U64 := 100#64

def unbondingEpochs : U64 := 7#64

/-- What the contract keeps so that staking calls pass their own check. -/
def minFeeReserve : U128 := 10000#128

def maxOperators : U64 := 32#64

def maxUndelegationsPerOp : U64 := 7#64

def deadAddress : AccountId := Hash.repeated 0xDE

/-- Tokens that the first deposit burns to the dead address. -/
def bootstrapBurn : U128 := 1000#128

def minFirstDeposit : U128 := 11100#128

def feeBpsHardCap : U64 := 2000#64

def defaultFeeBps : U64 := 1000#64

def defaultOpCapBps : U64 := 2500#64

/-- 100 SOLEN. -/
def minRecompound : U128 := 10000000000#128

/-! ## Storage keys -/

inductive Field where
  | owner
  | treasury
  | slashOracle
  | paused
  | totalSupply
  | totalPooledSolen
  | lastBalanceSeen
  | pendingWithdrawalSolen
  | protocolFeeBps
  | opCount
  | opCursor
  | opCapBps
  | lastRecompoundEpoch
  | wqHead
  | wqTail
  | unLogHead
  | unLogTail
  | withdrawalBuffer
deriving DecidableEq

def Field.name : Field → String
  | owner => "owner"
  | treasury => "treasury"
  | slashOracle => "slash_oracle"
  | paused => "paused"
  | totalSupply => "total_supply"
  | totalPooledSolen => "total_pooled_solen"
  | lastBalanceSeen => "last_balance_seen"
  | pendingWithdrawalSolen => "pending_withdrawal_solen"
  | protocolFeeBps => "protocol_fee_bps"
  | opCount => "op_count"
  | opCursor => "op_cursor"
  | opCapBps => "op_cap_bps"
  | lastRecompoundEpoch => "last_recompound_epoch"
  | wqHead => "wq_head"
  | wqTail => "wq_tail"
  | unLogHead => "un_log_head"
  | unLogTail => "un_log_tail"
  | withdrawalBuffer => "withdrawal_buffer"

inductive Key where
  | field (f : Field)
  | balance (account : AccountId)
  | allowance (owner spender : AccountId)
  | op (i : U64)
  | opStake (operator : AccountId)
  | pendingUndelegate (operator : AccountId)
  | inflightUndelegations (operator : AccountId)
  | wq (seq : U64)
  | unLog (seq : U64)
deriving DecidableEq

def Key.bytes : Key → Bytes
  | field f => ascii f.name
  | balance account => ascii "bal/" ++ account.bytes
  | allowance owner spender => ascii "allow/" ++ owner.bytes ++ ascii "/" ++ spender.bytes
  | op i => ascii "op/" ++ le64 i
  | opStake operator => ascii "op_stake/" ++ operator.bytes
  | pendingUndelegate operator => ascii "pue/" ++ operator.bytes
  | inflightUndelegations operator => ascii "ifu/" ++ operator.bytes
  | wq seq => ascii "wq/" ++ le64 seq
  | unLog seq => ascii "un/" ++ le64 seq

/-! ## Host functions -/

def get (k : Key) : Code (Option Bytes) := .read k.bytes .done

def set (k : Key) (value : Bytes) : Code Unit := .write k.bytes value (.done ())

def getU64 (k : Key) : Code (Option U64) := (·.bind fun data => readU64 data 0) <$> get k

def getU128 (k : Key) : Code (Option U128) := (·.bind fun data => readU128 data 0) <$> get k

def read32 (k : Key) : Code (Option Hash) := (·.bind fun data => Hash.ofSlice? data) <$> get k

def setU64 (k : Key) (value : U64) : Code Unit := set k (le64 value)

def setU128 (k : Key) (value : U128) : Code Unit := set k (le128 value)

def emit (topic : String) (data : Bytes) : Code Unit := .emit topic data (.done ())

def caller : Code AccountId := .sense fun v => .done v.caller

def msgValue : Code U128 := .sense fun v => .done v.msgValue

def selfBalance : Code U128 := .sense fun v => .done v.selfBalance

def currentEpoch : Code U64 :=
  .sense fun v => .done (BitVec.ofNat 64 v.blockHeight / epochLengthBlocks)

def add (a b : U128) : Code U128 := .note a b (.done (a + b))

def saturatingAdd (a b : U128) : Code U128 := .note a b (.done (satAdd a b))

/-- `return sdk::return_value(msg)` in the middle of a method. -/
def failIf (c : Prop) [Decidable c] (msg : String) : Code Unit :=
  if c then .leave (.returned (ascii msg)) else pure ()

def orFail {α : Type} (o : Option α) (msg : String) : Code α :=
  match o with
  | some a => pure a
  | none => .leave (.returned (ascii msg))

/-- A panic. -/
def trapIf (c : Prop) [Decidable c] (msg : String) : Code Unit :=
  if c then .leave (.trapped msg) else pure ()

def ok : Code Bytes := pure (ascii "ok")

/-- `sdk::transfer`, or a panic. -/
def transferNative (dest : AccountId) (amount : U128) (msg : String) : Code Unit :=
  .send dest amount fun sent => trapIf (sent = false) msg

/-- `sdk::queue_call` to the staking contract, or a panic. -/
def queueStaking (method : String) (args : Bytes) (msg : String) : Code Unit :=
  .queue ⟨System.stakingAddress, ascii method, args⟩ fun queued => trapIf (queued = false) msg

/-! ## Reading storage -/

def getBalance (account : AccountId) : Code U128 := (·.getD 0#128) <$> getU128 (.balance account)

def getAllowance (owner spender : AccountId) : Code U128 :=
  (·.getD 0#128) <$> getU128 (.allowance owner spender)

def getTotalSupply : Code U128 := (·.getD 0#128) <$> getU128 (.field .totalSupply)

def getTotalPooled : Code U128 := (·.getD 0#128) <$> getU128 (.field .totalPooledSolen)

def getLastBalanceSeen : Code U128 := (·.getD 0#128) <$> getU128 (.field .lastBalanceSeen)

def getPendingWithdrawalsSolen : Code U128 :=
  (·.getD 0#128) <$> getU128 (.field .pendingWithdrawalSolen)

def getOpCount : Code U64 := (·.getD 0#64) <$> getU64 (.field .opCount)

def getOpCursor : Code U64 := (·.getD 0#64) <$> getU64 (.field .opCursor)

def getOpCapBps : Code U64 := (·.getD defaultOpCapBps) <$> getU64 (.field .opCapBps)

def getProtocolFeeBps : Code U64 := (·.getD defaultFeeBps) <$> getU64 (.field .protocolFeeBps)

def getOpStake (op : AccountId) : Code U128 := (·.getD 0#128) <$> getU128 (.opStake op)

def getPendingUndelegate (op : AccountId) : Code U128 :=
  (·.getD 0#128) <$> getU128 (.pendingUndelegate op)

def getInflightUndelegations (op : AccountId) : Code U64 :=
  (·.getD 0#64) <$> getU64 (.inflightUndelegations op)

def getOwner : Code AccountId := (·.getD Hash.zero) <$> read32 (.field .owner)

def getTreasury : Code AccountId := (·.getD Hash.zero) <$> read32 (.field .treasury)

def getSlashOracle : Code AccountId := (·.getD Hash.zero) <$> read32 (.field .slashOracle)

def isPaused : Code Bool := (fun data => data.bind List.head? == some 1) <$> get (.field .paused)

/-- The operator in a slot of the list; zeros when the slot is empty. -/
def getOp (i : U64) : Code AccountId := (·.getD Hash.zero) <$> read32 (.op i)

def getLastRecompoundEpoch : Code U64 := (·.getD 0#64) <$> getU64 (.field .lastRecompoundEpoch)

def getWqHead : Code U64 := (·.getD 0#64) <$> getU64 (.field .wqHead)

def getWqTail : Code U64 := (·.getD 0#64) <$> getU64 (.field .wqTail)

def getUnLogHead : Code U64 := (·.getD 0#64) <$> getU64 (.field .unLogHead)

def getUnLogTail : Code U64 := (·.getD 0#64) <$> getU64 (.field .unLogTail)

def getWithdrawalBuffer : Code U128 := (·.getD 0#128) <$> getU128 (.field .withdrawalBuffer)

/-- A request in the withdrawal queue. -/
structure Withdrawal where
  account : AccountId
  solenOwed : U128
  requestedEpoch : U64
deriving DecidableEq

def Withdrawal.encode (w : Withdrawal) : Bytes :=
  w.account.bytes ++ le128 w.solenOwed ++ le64 w.requestedEpoch

def Withdrawal.decode (data : Bytes) : Option Withdrawal := do
  let account ← Hash.ofSlice? data
  let solenOwed ← readU128 data 32
  let requestedEpoch ← readU64 data 48
  pure ⟨account, solenOwed, requestedEpoch⟩

def readWq (seq : U64) : Code (Option Withdrawal) := (·.bind Withdrawal.decode) <$> get (.wq seq)

/-- An undelegation that was queued and has not been seen to mature. -/
structure Unbonding where
  epoch : U64
  amount : U128
  operator : AccountId
deriving DecidableEq

def Unbonding.encode (u : Unbonding) : Bytes :=
  le64 u.epoch ++ le128 u.amount ++ u.operator.bytes

def Unbonding.decode (data : Bytes) : Option Unbonding := do
  let epoch ← readU64 data 0
  let amount ← readU128 data 8
  let operator ← Hash.ofSlice? (data.drop 24)
  pure ⟨epoch, amount, operator⟩

def readUnLog (seq : U64) : Code (Option Unbonding) := (·.bind Unbonding.decode) <$> get (.unLog seq)

/-! ## The token -/

def doInit (args : Bytes) : Code Bytes := do
  let owner ← getOwner
  failIf (owner ≠ Hash.zero) "err:already_initialized"
  let treasury ← orFail (readAccountId args 0) "err:invalid_args"
  let oracle ← orFail (readAccountId args 32) "err:invalid_args"
  let caller ← caller
  set (.field .owner) caller.bytes
  set (.field .treasury) treasury.bytes
  set (.field .slashOracle) oracle.bytes
  setU64 (.field .protocolFeeBps) defaultFeeBps
  setU64 (.field .opCapBps) defaultOpCapBps
  emit "initialized" caller.bytes
  ok

/-- The second balance is read after the first was written. -/
def move (source dest : AccountId) (sourceBalance amount : U128) : Code Unit := do
  setU128 (.balance source) (sourceBalance - amount)
  let destBalance ← getBalance dest
  let credited ← add destBalance amount
  setU128 (.balance dest) credited

def doTransfer (args : Bytes) : Code Bytes := do
  let caller ← caller
  let dest ← orFail (readAccountId args 0) "err:invalid_args"
  let amount ← orFail (readU128 args 32) "err:invalid_args"
  let balance ← getBalance caller
  failIf (balance < amount) "err:insufficient_balance"
  move caller dest balance amount
  emit "transfer" (dest.bytes ++ le128 amount)
  ok

def doTransferFrom (args : Bytes) : Code Bytes := do
  let caller ← caller
  let source ← orFail (readAccountId args 0) "err:invalid_args"
  let dest ← orFail (readAccountId args 32) "err:invalid_args"
  let amount ← orFail (readU128 args 64) "err:invalid_args"
  let allowed ← getAllowance source caller
  failIf (allowed < amount) "err:insufficient_allowance"
  let balance ← getBalance source
  failIf (balance < amount) "err:insufficient_balance"
  move source dest balance amount
  setU128 (.allowance source caller) (allowed - amount)
  emit "transfer" (dest.bytes ++ le128 amount)
  ok

def doApprove (args : Bytes) : Code Bytes := do
  let caller ← caller
  let spender ← orFail (readAccountId args 0) "err:invalid_args"
  let amount ← orFail (readU128 args 32) "err:invalid_args"
  setU128 (.allowance caller spender) amount
  emit "approval" (caller.bytes ++ spender.bytes ++ le128 amount)
  ok

/-! ## Rewards and operators -/

/-- Tokens for the treasury, at the rate after the pool has grown. -/
def mintFee (feeSolen poolAfter : U128) : Code Unit := do
  let supply ← getTotalSupply
  if 0#128 < feeSolen ∧ 0#128 < poolAfter ∧ 0#128 < supply then do
    let feeMint := satMul feeSolen supply / poolAfter
    if 0#128 < feeMint then do
      let treasury ← getTreasury
      let balance ← getBalance treasury
      let credited ← add balance feeMint
      setU128 (.balance treasury) credited
      let minted ← add supply feeMint
      setU128 (.field .totalSupply) minted
      emit "mint" (treasury.bytes ++ le128 feeMint)
    else pure ()
  else pure ()

/-- What came in since the balance was last seen, apart from the value of
this call, counts as a reward. -/
def syncRewards : Code Unit := do
  let current ← selfBalance
  let last ← getLastBalanceSeen
  let value ← msgValue
  let inflow := satSub (satSub current last) value
  (if 0#128 < inflow then do
    let feeBps ← getProtocolFeeBps
    let feeSolen := satMul inflow (feeBps.setWidth 128) / 10000#128
    let growthSolen := inflow - feeSolen
    let poolBefore ← getTotalPooled
    let poolAfter ← add poolBefore growthSolen
    setU128 (.field .totalPooledSolen) poolAfter
    mintFee feeSolen poolAfter
  else pure ())
  setU128 (.field .lastBalanceSeen) current

/-- The slots from `walk` on, `n` of them in a circle: the first operator
under the cap, or none; with the first operator met at all. -/
def walkOperators (amount cap : U128) (count : U64) :
    Nat → U64 → AccountId → Code (Option (AccountId × U64) × AccountId)
  | 0, _, fallback => pure (none, fallback)
  | n + 1, walk, fallback => do
      let op ← getOp walk
      let next := (walk + 1#64) % count
      if op ≠ Hash.zero then do
        let stake ← getOpStake op
        if satAdd stake amount ≤ cap then pure (some (op, next), fallback)
        else walkOperators amount cap count n next (if fallback = Hash.zero then op else fallback)
      else walkOperators amount cap count n next fallback

/-- An operator for `amount`, and the cursor after it. -/
def selectOperator (amount : U128) : Code (AccountId × U64) := do
  let count ← getOpCount
  let cursor ← getOpCursor
  if count = 0#64 then pure (Hash.zero, cursor)
  else do
    let capBps ← getOpCapBps
    let pooled ← getTotalPooled
    let cap := satMul (satAdd pooled amount) (capBps.setWidth 128) / 10000#128
    match ← walkOperators amount cap count count.toNat cursor Hash.zero with
    | (some found, _) => pure found
    | (none, fallback) =>
        pure (if fallback ≠ Hash.zero then (fallback, (cursor + 1#64) % count)
          else (Hash.zero, cursor))

def peekOperator (amount : U128) : Code AccountId := (·.1) <$> selectOperator amount

def pickOperator (amount : U128) : Code AccountId := do
  let (chosen, advanceTo) ← selectOperator amount
  (if chosen ≠ Hash.zero then setU64 (.field .opCursor) advanceTo else pure ())
  pure chosen

/-! ## Deposits -/

/-- The tokens a deposit of `value` is worth. The first deposit burns some to
the dead address. -/
def depositMint (value supply pool : U128) (isFirstDeposit : Bool) : Code U128 := do
  if isFirstDeposit then do
    let dead ← getBalance deadAddress
    let burned ← add dead bootstrapBurn
    setU128 (.balance deadAddress) burned
    setU128 (.field .totalSupply) bootstrapBurn
    emit "mint" (deadAddress.bytes ++ le128 bootstrapBurn)
    pure (value - bootstrapBurn)
  else do
    trapIf (pool = 0#128) "stSOLEN: invariant violation pool=0 supply>0"
    pure (satMul value supply / pool)

/-- What the staking contract will take from the balance is not missing. -/
def lowerLastSeen (amount : U128) : Code Unit := do
  let lastSeen ← getLastBalanceSeen
  setU128 (.field .lastBalanceSeen) (satSub lastSeen amount)

def doDeposit : Code Bytes := do
  let paused ← isPaused
  failIf (paused = true) "err:paused"
  let value ← msgValue
  failIf (value = 0#128) "err:zero_value"
  let balance ← selfBalance
  let toDelegate := umin (satSub balance minFeeReserve) value
  failIf (toDelegate = 0#128) "err:deposit_too_small_for_reserve"
  let supplyPre ← getTotalSupply
  let isFirstDeposit := decide (supplyPre = 0#128)
  failIf (isFirstDeposit = true ∧ value < minFirstDeposit) "err:first_deposit_too_small"
  let count ← getOpCount
  failIf (count = 0#64) "err:no_operators"
  let preview ← peekOperator toDelegate
  failIf (preview = Hash.zero) "err:no_operators"
  syncRewards
  let supply ← getTotalSupply
  let pool ← getTotalPooled
  let mintAmount ← depositMint value supply pool isFirstDeposit
  failIf (mintAmount = 0#128 ∧ isFirstDeposit = false) "err:mint_zero"
  let chosen ← pickOperator toDelegate
  let caller ← caller
  let held ← getBalance caller
  let credited ← add held mintAmount
  setU128 (.balance caller) credited
  let supply ← getTotalSupply
  let minted ← add supply mintAmount
  setU128 (.field .totalSupply) minted
  let pooled ← add pool value
  setU128 (.field .totalPooledSolen) pooled
  let stake ← getOpStake chosen
  let delegated ← add stake toDelegate
  setU128 (.opStake chosen) delegated
  queueStaking "delegate" (chosen.bytes ++ le128 toDelegate) "stSOLEN: delegate queue full"
  lowerLastSeen toDelegate
  emit "deposit" (caller.bytes ++ le128 value ++ le128 mintAmount ++ chosen.bytes)
  emit "mint" (caller.bytes ++ le128 mintAmount)
  ok

/-! ## Withdrawal requests -/

/-- The stake behind `n` slots from slot `i` on. -/
def totalOpStake : Nat → U64 → U128 → Code U128
  | 0, _, total => pure total
  | n + 1, i, total => do
      let op ← getOp i
      if op = Hash.zero then totalOpStake n (i + 1#64) total
      else do
        let stake ← getOpStake op
        let total ← saturatingAdd total stake
        totalOpStake n (i + 1#64) total

def raisePending (op : AccountId) (amount : U128) : Code Unit := do
  let pending ← getPendingUndelegate op
  let raised ← add pending amount
  setU128 (.pendingUndelegate op) raised

/-- Splits `owed` over the operators in `n` slots, by their stake. Ends with
what was allocated and the last operator with stake. -/
def allocate (owed total : U128) : Nat → U64 → U128 → AccountId → Code (U128 × AccountId)
  | 0, _, allocated, lastOp => pure (allocated, lastOp)
  | n + 1, i, allocated, lastOp => do
      let op ← getOp i
      if op = Hash.zero then allocate owed total n (i + 1#64) allocated lastOp
      else do
        let stake ← getOpStake op
        if stake = 0#128 then allocate owed total n (i + 1#64) allocated lastOp
        else do
          let share := satMul owed stake / total
          if 0#128 < share then do
            raisePending op share
            let allocated ← saturatingAdd allocated share
            allocate owed total n (i + 1#64) allocated op
          else allocate owed total n (i + 1#64) allocated op

def allocateAll (owed total : U128) (count : U64) : Code Unit := do
  let (allocated, lastOp) ← allocate owed total count.toNat 0#64 0#128 Hash.zero
  if allocated < owed ∧ lastOp ≠ Hash.zero then raisePending lastOp (owed - allocated)
  else pure ()

/-- Appends to the queue and returns the place and the epoch. -/
def enqueue (account : AccountId) (owed : U128) : Code (U64 × U64) := do
  let seq ← getWqTail
  let now ← currentEpoch
  set (.wq seq) (Withdrawal.mk account owed now).encode
  setU64 (.field .wqTail) (seq + 1#64)
  pure (seq, now)

def doRequestWithdrawal (args : Bytes) : Code Bytes := do
  let paused ← isPaused
  failIf (paused = true) "err:paused"
  let burn ← orFail (readU128 args 0) "err:invalid_args"
  failIf (burn = 0#128) "err:zero_amount"
  let caller ← caller
  let balance ← getBalance caller
  failIf (balance < burn) "err:insufficient_balance"
  let supplyPre ← getTotalSupply
  let poolPre ← getTotalPooled
  failIf (supplyPre = 0#128 ∨ poolPre = 0#128) "err:empty_pool"
  failIf (satMul burn poolPre / supplyPre = 0#128) "err:owed_zero"
  let count ← getOpCount
  let totalStake ← totalOpStake count.toNat 0#64 0#128
  failIf (totalStake = 0#128) "err:no_delegated_stake"
  syncRewards
  let supply ← getTotalSupply
  let pool ← getTotalPooled
  -- A supply of zero is only possible when it wrapped.
  trapIf (supply = 0#128) "attempt to divide by zero"
  let owed := satMul burn pool / supply
  failIf (owed = 0#128) "err:owed_zero"
  let held ← getBalance caller
  setU128 (.balance caller) (held - burn)
  setU128 (.field .totalSupply) (supply - burn)
  setU128 (.field .totalPooledSolen) (pool - owed)
  let pending ← getPendingWithdrawalsSolen
  let raised ← add pending owed
  setU128 (.field .pendingWithdrawalSolen) raised
  allocateAll owed totalStake count
  let (seq, now) ← enqueue caller owed
  emit "withdrawal_requested"
    (caller.bytes ++ le128 burn ++ le64 seq ++ le64 (now + unbondingEpochs + 1#64))
  ok

/-! ## Undelegations -/

/-- Walks the log of undelegations, `n` entries from `seq` on, and sums up
what has matured. With `commit`, it is taken out of the log. -/
def walkLog (now : U64) (commit : Bool) : Nat → U64 → U128 → U64 → Code (U128 × U64)
  | 0, _, matured, newHead => pure (matured, newHead)
  | n + 1, seq, matured, newHead => do
      match ← readUnLog seq with
      | none => walkLog now commit n (seq + 1#64) matured (if commit then seq + 1#64 else newHead)
      | some entry =>
          if now < entry.epoch + unbondingEpochs then pure (matured, newHead)
          else do
            let matured ← saturatingAdd matured entry.amount
            if commit then do
              set (.unLog seq) []
              let inflight ← getInflightUndelegations entry.operator
              setU64 (.inflightUndelegations entry.operator) (satSub inflight 1#64)
              walkLog now commit n (seq + 1#64) matured (seq + 1#64)
            else walkLog now commit n (seq + 1#64) matured newHead

def walkMaturedLog (now : U64) (commit : Bool) : Code U128 := do
  let head ← getUnLogHead
  let tail ← getUnLogTail
  let (matured, newHead) ← walkLog now commit (tail.toNat - head.toNat) head 0#128 head
  (if commit then setU64 (.field .unLogHead) newHead else pure ())
  pure matured

/-- Pulls what has matured from the staking contract into the buffer. -/
def pullMatured (matured : U128) : Code Unit := do
  if 0#128 < matured then do
    queueStaking "withdraw" [] "stSOLEN: withdraw queue full"
    let buffer ← getWithdrawalBuffer
    let raised ← add buffer matured
    setU128 (.field .withdrawalBuffer) raised
    let lastSeen ← getLastBalanceSeen
    let seen ← add lastSeen matured
    setU128 (.field .lastBalanceSeen) seen
  else pure ()

/-- Undelegates `amount` from an operator and logs it. -/
def undelegateFrom (now : U64) (op : AccountId) (pending stake amount : U128) (inflight : U64) :
    Code Unit := do
  setU128 (.pendingUndelegate op) (pending - amount)
  setU128 (.opStake op) (stake - amount)
  setU64 (.inflightUndelegations op) (inflight + 1#64)
  let seq ← getUnLogTail
  set (.unLog seq) (Unbonding.mk now amount op).encode
  setU64 (.field .unLogTail) (seq + 1#64)
  queueStaking "undelegate" (op.bytes ++ le128 amount) "stSOLEN: undelegate queue full"

/-- Undelegates what is pending with the operators in `n` slots. -/
def crankOperators (now : U64) : Nat → U64 → U64 → U128 → Code (U64 × U128)
  | 0, _, processed, total => pure (processed, total)
  | n + 1, i, processed, total => do
      let op ← getOp i
      if op = Hash.zero then crankOperators now n (i + 1#64) processed total
      else do
        let pending ← getPendingUndelegate op
        if pending = 0#128 then crankOperators now n (i + 1#64) processed total
        else do
          let inflight ← getInflightUndelegations op
          if maxUndelegationsPerOp ≤ inflight + 1#64 then
            crankOperators now n (i + 1#64) processed total
          else do
            let stake ← getOpStake op
            let amount := umin pending stake
            if amount = 0#128 then crankOperators now n (i + 1#64) processed total
            else do
              undelegateFrom now op pending stake amount inflight
              let total ← saturatingAdd total amount
              crankOperators now n (i + 1#64) (processed + 1#64) total

def doCrankUndelegations : Code Bytes := do
  syncRewards
  let now ← currentEpoch
  let matured ← walkMaturedLog now true
  pullMatured matured
  let count ← getOpCount
  let (processed, total) ← crankOperators now count.toNat 0#64 0#64 0#128
  emit "crank" (le64 processed ++ le128 total)
  ok

/-! ## Claims -/

/-- The request at the head of the queue, when it is `seq` and its time has
come. -/
def headRequest (args : Bytes) : Code (U64 × Withdrawal) := do
  let seq ← orFail (readU64 args 0) "err:invalid_args"
  let head ← getWqHead
  failIf (seq ≠ head) "err:not_head_of_queue"
  let entry ← readWq seq
  let w ← orFail entry "err:no_such_request"
  let now ← currentEpoch
  failIf (now < w.requestedEpoch + unbondingEpochs + 1#64) "err:not_yet_eligible"
  pure (seq, w)

def dequeue (seq : U64) : Code Unit := do
  set (.wq seq) []
  setU64 (.field .wqHead) (seq + 1#64)

def lowerPending (owed : U128) : Code Unit := do
  let pending ← getPendingWithdrawalsSolen
  setU128 (.field .pendingWithdrawalSolen) (satSub pending owed)

def doClaimWithdrawal (args : Bytes) : Code Bytes := do
  let (seq, w) ← headRequest args
  let buffer ← getWithdrawalBuffer
  failIf (buffer < w.solenOwed) "err:buffer_insufficient"
  syncRewards
  transferNative w.account w.solenOwed "stSOLEN: claim transfer queue full"
  setU128 (.field .withdrawalBuffer) (buffer - w.solenOwed)
  lowerPending w.solenOwed
  lowerLastSeen w.solenOwed
  dequeue seq
  emit "withdrawal_claimed" (w.account.bytes ++ le128 w.solenOwed ++ le64 seq)
  ok

def requireOwner : Code Unit := do
  let caller ← caller
  let owner ← getOwner
  failIf (caller ≠ owner) "err:unauthorized"

/-- Pays what the buffer holds and drops the rest of the claim. -/
def doSettleShortfall (args : Bytes) : Code Bytes := do
  requireOwner
  let (seq, w) ← headRequest args
  let buffer ← getWithdrawalBuffer
  let paid := umin buffer w.solenOwed
  let shortfall := w.solenOwed - paid
  syncRewards
  (if 0#128 < paid then do
    transferNative w.account paid "stSOLEN: shortfall transfer queue full"
    setU128 (.field .withdrawalBuffer) (buffer - paid)
    lowerLastSeen paid
  else pure ())
  lowerPending w.solenOwed
  dequeue seq
  emit "claim_shortfall" (w.account.bytes ++ le64 seq ++ le128 w.solenOwed ++ le128 paid ++
    le128 shortfall)
  ok

def doRecompoundRewards : Code Bytes := do
  let now ← currentEpoch
  let last ← getLastRecompoundEpoch
  failIf (last ≠ 0#64 ∧ now ≤ last) "err:rate_limited"
  let count ← getOpCount
  failIf (count = 0#64) "err:no_operators"
  let preview ← peekOperator 0#128
  failIf (preview = Hash.zero) "err:no_operators"
  syncRewards
  let balance ← selfBalance
  let pending ← getPendingWithdrawalsSolen
  let available := satSub (satSub balance pending) minFeeReserve
  failIf (available < minRecompound) "err:insufficient_to_recompound"
  let chosen ← pickOperator available
  let stake ← getOpStake chosen
  let delegated ← add stake available
  setU128 (.opStake chosen) delegated
  queueStaking "delegate" (chosen.bytes ++ le128 available) "stSOLEN: recompound delegate queue full"
  setU128 (.field .lastBalanceSeen) (satSub balance available)
  setU64 (.field .lastRecompoundEpoch) now
  emit "recompounded" (le128 available ++ chosen.bytes)
  ok

def doPoke : Code Bytes := do
  syncRewards
  ok

/-! ## The slashing oracle and the owner -/

def doReportSlash (args : Bytes) : Code Bytes := do
  let caller ← caller
  let oracle ← getSlashOracle
  failIf (oracle = Hash.zero ∨ caller ≠ oracle) "err:unauthorized"
  let operator ← orFail (readAccountId args 0) "err:invalid_args"
  let realized ← orFail (readU128 args 32) "err:invalid_args"
  let prior ← getOpStake operator
  failIf (prior ≤ realized) "err:not_a_loss"
  let loss := prior - realized
  setU128 (.opStake operator) realized
  let pool ← getTotalPooled
  setU128 (.field .totalPooledSolen) (satSub pool loss)
  emit "slash_reported" (operator.bytes ++ le128 prior ++ le128 realized ++ le128 loss)
  ok

def hasActivePosition (op : AccountId) : Code Bool := do
  let stake ← getOpStake op
  if 0#128 < stake then pure true
  else do
    let pending ← getPendingUndelegate op
    if 0#128 < pending then pure true
    else do
      let inflight ← getInflightUndelegations op
      pure (decide (0#64 < inflight))

def doSetOperator (args : Bytes) : Code Bytes := do
  requireOwner
  let i ← orFail (readU64 args 0) "err:invalid_args"
  let op ← orFail (readAccountId args 8) "err:invalid_args"
  failIf (maxOperators ≤ i) "err:index_out_of_range"
  let existing ← getOp i
  let busy ← (if existing ≠ Hash.zero ∧ existing ≠ op then hasActivePosition existing
    else pure false)
  failIf (busy = true) "err:slot_occupant_has_position"
  set (.op i) op.bytes
  emit "operator_set" (le64 i ++ op.bytes)
  ok

def doRemoveOperator (args : Bytes) : Code Bytes := do
  requireOwner
  let i ← orFail (readU64 args 0) "err:invalid_args"
  let slot ← read32 (.op i)
  let op ← orFail slot "err:slot_empty"
  let busy ← hasActivePosition op
  failIf (busy = true) "err:operator_has_position"
  set (.op i) Hash.zero.bytes
  ok

/-- Some operator in `n` slots from slot `i` on has a position. -/
def anyPosition : Nat → U64 → Code Bool
  | 0, _ => pure false
  | n + 1, i => do
      let op ← getOp i
      let busy ← (if op ≠ Hash.zero then hasActivePosition op else pure false)
      if busy then pure true else anyPosition n (i + 1#64)

def doAdminSetOpCount (args : Bytes) : Code Bytes := do
  requireOwner
  let n ← orFail (readU64 args 0) "err:invalid_args"
  failIf (maxOperators < n) "err:exceeds_max_operators"
  let current ← getOpCount
  let hidden ← anyPosition (current.toNat - n.toNat) n
  failIf (hidden = true) "err:slot_in_range_has_position"
  setU64 (.field .opCount) n
  ok

/-- The two limits in basis points that the owner sets. -/
def setBps (field : Field) (limit : U64) (msg : String) (args : Bytes) : Code Bytes := do
  requireOwner
  let b ← orFail (readU64 args 0) "err:invalid_args"
  failIf (limit < b) msg
  setU64 (.field field) b
  ok

def doSetOpCapBps : Bytes → Code Bytes := setBps .opCapBps 10000#64 "err:bps_out_of_range"

def doSetProtocolFeeBps : Bytes → Code Bytes :=
  setBps .protocolFeeBps feeBpsHardCap "err:fee_above_hard_cap"

/-- The two accounts that the owner sets. -/
def setRole (field : Field) (args : Bytes) : Code Bytes := do
  requireOwner
  let account ← orFail (readAccountId args 0) "err:invalid_args"
  set (.field field) account.bytes
  ok

def doSetTreasury : Bytes → Code Bytes := setRole .treasury

def doSetSlashOracle : Bytes → Code Bytes := setRole .slashOracle

def setPaused (flag : UInt8) (topic : String) : Code Bytes := do
  requireOwner
  set (.field .paused) [flag]
  emit topic []
  ok

def doPause : Code Bytes := setPaused 1 "paused"

def doUnpause : Code Bytes := setPaused 0 "unpaused"

/-! ## Reads -/

def doBalanceOf (args : Bytes) : Code Bytes := do
  let account ← orFail (readAccountId args 0) "err:invalid_args"
  le128 <$> getBalance account

def doAllowance (args : Bytes) : Code Bytes := do
  let owner ← orFail (readAccountId args 0) "err:invalid_args"
  let spender ← orFail (readAccountId args 32) "err:invalid_args"
  le128 <$> getAllowance owner spender

def doPendingUndelegateOpOf (args : Bytes) : Code Bytes := do
  let op ← orFail (readAccountId args 0) "err:invalid_args"
  le128 <$> getPendingUndelegate op

def doOpStakeOf (args : Bytes) : Code Bytes := do
  let op ← orFail (readAccountId args 0) "err:invalid_args"
  le128 <$> getOpStake op

def doWithdrawalAt (args : Bytes) : Code Bytes := do
  let seq ← orFail (readU64 args 0) "err:invalid_args"
  (fun entry => (entry.map Withdrawal.encode).getD []) <$> readWq seq

/-- The requests of `target` in the queue, `n` places from `seq` on. -/
def countWithdrawals (target : AccountId) : Nat → U64 → U64 → Code U64
  | 0, _, count => pure count
  | n + 1, seq, count => do
      let entry ← readWq seq
      countWithdrawals target n (seq + 1#64)
        (if entry.map (·.account) = some target then count + 1#64 else count)

def doPendingWithdrawalsOf (args : Bytes) : Code Bytes := do
  let target ← orFail (readAccountId args 0) "err:invalid_args"
  let head ← getWqHead
  let tail ← getWqTail
  le64 <$> countWithdrawals target (tail.toNat - head.toNat) head 0#64

def doExchangeRate : Code Bytes := do
  let pooled ← getTotalPooled
  let supply ← getTotalSupply
  pure (le128 pooled ++ le128 supply)

/-! ## The entry point -/

inductive Method where
  | init | transfer | transferFrom | approve | balanceOf | allowance | totalSupply
  | name | symbol | decimals
  | deposit | requestWithdrawal | claimWithdrawal | crankUndelegations | recompoundRewards | poke
  | reportSlash
  | setOperator | removeOperator | setOpCount | setOpCapBps | setProtocolFeeBps | setTreasury
  | setSlashOracle | pause | unpause | settleShortfall
  | exchangeRate | pendingUndelegateOpOf | opStakeOf | withdrawalAt | pendingWithdrawalsOf
  | owner | treasury | slashOracle | paused
deriving DecidableEq

/-- The names callers use, in the order of the contract's own list. -/
def Method.names : List (String × Method) :=
  [("init", .init), ("transfer", .transfer), ("transfer_from", .transferFrom),
    ("approve", .approve), ("balance_of", .balanceOf), ("allowance", .allowance),
    ("total_supply", .totalSupply), ("name", .name), ("symbol", .symbol),
    ("decimals", .decimals), ("deposit", .deposit), ("request_withdrawal", .requestWithdrawal),
    ("claim_withdrawal", .claimWithdrawal), ("crank_undelegations", .crankUndelegations),
    ("recompound_rewards", .recompoundRewards), ("poke", .poke), ("report_slash", .reportSlash),
    ("set_operator", .setOperator), ("remove_operator", .removeOperator),
    ("set_op_count", .setOpCount), ("set_op_cap_bps", .setOpCapBps),
    ("set_protocol_fee_bps", .setProtocolFeeBps), ("set_treasury", .setTreasury),
    ("set_slash_oracle", .setSlashOracle), ("pause", .pause), ("unpause", .unpause),
    ("settle_shortfall", .settleShortfall), ("exchange_rate", .exchangeRate),
    ("pending_undelegate_op_of", .pendingUndelegateOpOf), ("op_stake_of", .opStakeOf),
    ("withdrawal_at", .withdrawalAt), ("pending_withdrawals_of", .pendingWithdrawalsOf),
    ("owner", .owner), ("treasury", .treasury), ("slash_oracle", .slashOracle),
    ("paused", .paused)]

def Method.ofBytes? (method : Bytes) : Option Method :=
  (names.find? fun e => ascii e.1 == method).map (·.2)

def Method.run (args : Bytes) : Method → Code Bytes
  | init => doInit args
  | transfer => doTransfer args
  | transferFrom => doTransferFrom args
  | approve => doApprove args
  | balanceOf => doBalanceOf args
  | allowance => doAllowance args
  | totalSupply => le128 <$> getTotalSupply
  | name => pure (ascii "Staked SOLEN")
  | symbol => pure (ascii "stSOLEN")
  | decimals => pure [8]
  | deposit => doDeposit
  | requestWithdrawal => doRequestWithdrawal args
  | claimWithdrawal => doClaimWithdrawal args
  | crankUndelegations => doCrankUndelegations
  | recompoundRewards => doRecompoundRewards
  | poke => doPoke
  | reportSlash => doReportSlash args
  | setOperator => doSetOperator args
  | removeOperator => doRemoveOperator args
  | setOpCount => doAdminSetOpCount args
  | setOpCapBps => doSetOpCapBps args
  | setProtocolFeeBps => doSetProtocolFeeBps args
  | setTreasury => doSetTreasury args
  | setSlashOracle => doSetSlashOracle args
  | pause => doPause
  | unpause => doUnpause
  | settleShortfall => doSettleShortfall args
  | exchangeRate => doExchangeRate
  | pendingUndelegateOpOf => doPendingUndelegateOpOf args
  | opStakeOf => doOpStakeOf args
  | withdrawalAt => doWithdrawalAt args
  | pendingWithdrawalsOf => doPendingWithdrawalsOf args
  | owner => Hash.bytes <$> getOwner
  | treasury => Hash.bytes <$> getTreasury
  | slashOracle => Hash.bytes <$> getSlashOracle
  | paused => (fun flag => [if flag then 1 else 0]) <$> isPaused

/-- The method's name and its arguments, separated by the first zero byte. -/
def splitInput (input : Bytes) : Bytes × Bytes :=
  let method := input.takeWhile (· != 0)
  (method, input.drop (method.length + 1))

def callBody (input : Bytes) : Code Bytes :=
  match Method.ofBytes? (splitInput input).1 with
  | some method => method.run (splitInput input).2
  | none => pure (ascii "err:unknown_method")

/-- A call that has ended, with whether a request was refused for want of
fuel on the way. -/
structure Outcome where
  data : Bytes
  frame : Frame
  refused : Bool

/-- The end of a call. The data need not be paid for to be the answer: the
executor does not look at it. -/
def Outcome.finish (data : Bytes) (s : Frame) (t : Tank) : Except String Outcome :=
  let outOfFuel := .error "all fuel consumed by WebAssembly"
  t.ask (Vm.storageReadFuel data.length).toNat outOfFuel fun _ t' =>
    t'.ask 0 outOfFuel fun _ _ => .ok ⟨data, s, t.refused⟩

/-- A call of the contract with the fuel in `tank`, or the message of a
trap. -/
def call (ctx : HostContext) (tank : Tank) (input : Bytes) : Except String Outcome :=
  match (callBody input).metered { ctx := ctx, storage := ctx.storage } tank with
  | (.ok data, s, t) => Outcome.finish data s t
  | (.error (.returned data), s, t) => Outcome.finish data s t
  | (.error (.trapped msg), _, _) => .error msg

end Solen.StSolen
