import Solen.ReadFrame

/-!
# What system calls do to accounts

However many records they keep, the system contracts touch accounts in
few ways: they load an account and save it with another balance or other
authentication methods, or they create an empty one where there is none.
An `AccountFrame` is an invariant that survives these moves and writes
to any other key. It then survives every system call
(`AccountFrame.executeSystemCall`).
-/

namespace Solen

open Machine Prog

/-! ## Frames -/

/-- An invariant `I` that allows to save the accounts that are `Good`: those
that were loaded, with another balance or other authentication methods,
and new ones. -/
structure AccountFrame {σ : Type} [StateStore σ] (E : Platform) (I : σ → Prop)
    (Good : Account → Prop) : Prop where
  put : ∀ {s : σ} {k : Bytes} (v : Bytes), NotAccountKey k → I s → I (StateStore.put s k v)
  save : ∀ {s : σ} {a : Account}, Good a → I s → I (putAccount E a s)
  load : ∀ {s : σ} {id : AccountId} {a : Account}, I s →
    loadAccount E id s = .ok (some a) → Good a
  fresh : ∀ {s : σ} {id : AccountId}, I s → (∀ a, loadAccount E id s ≠ .ok (some a)) →
    Good (emptyAccount id)
  edit : ∀ {a : Account} (codeHash : Hash) (authMethods : List AuthMethod) (balance : U128),
    Good a → Good { a with codeHash := codeHash, authMethods := authMethods, balance := balance }

namespace AccountFrame

variable {σ : Type} [StateStore σ] {E : Platform} {I : σ → Prop} {Good : Account → Prop}

variable {ε : Type} (F : AccountFrame E I Good)

include F

theorem balance {a : Account} (h : Good a) (b : U128) : Good { a with balance := b } :=
  F.edit a.codeHash a.authMethods b h

/-- The same frame, for writes to all keys that are not account keys. -/
theorem callFrame : CallFrame E I NotAccountKey Good where
  put := F.put
  save := F.save
  load := F.load
  balance := fun b h => F.balance h b

theorem requireAccount (id : AccountId) : Keeps I (requireAccount E id) Good :=
  F.callFrame.requireAccount id

/-- A system call keeps every frame, whether it succeeds or not. -/
theorem executeSystemCall {s : σ} (hs : I s) (sender target : AccountId) (method : String)
    (args : Bytes) : I (executeSystemCall E s sender target method args).2 :=
  F.callFrame.executeSystemCall hs sender target method args (fun _ hk => hk.notAccountKey)
    (fun _ _ _ hs hnone => F.fresh hs hnone)
    fun _ _ a auth h => F.edit a.codeHash auth a.balance h

end AccountFrame

end Solen
