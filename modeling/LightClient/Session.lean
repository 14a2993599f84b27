import LightClient.Verifier

/-!
# Sessions

A cache may serve several verifiers, each with a backend of its own, over any number of
verifications. In between the time may move in either direction and entries may be dropped from the
cache.

Section 5 of the specification: verifiers that `with_cache` gives one `ProofCache`. Left out:
verifications that run at the same time; here one ends before the next begins.
-/
namespace LightClient

/-- A verifier and the backend that it asks. -/
structure Caller where
  verifier : Verifier
  backend : Backend

/-- What may happen to a cache in use by callers under names in `κ`. -/
inductive Action (κ : Type) where
  | verify (caller : κ) (account : String)
  | setClock (now : UInt64)
  | remove (t : Cache.Table) (key : String)
  | clear
  | clearTable (t : Cache.Table)
  | prune
  | pruneTable (t : Cache.Table)
  /-- The entry used least recently goes, as it does when the cache is full. -/
  | evict

/-- A cache in use at a time, with the journal of all that its callers have asked. -/
structure Session where
  now : UInt64
  state : Verifier.State

namespace Session

/-- A session with an empty cache in which nothing has been asked. -/
def start (settings : CacheConfig) (now : UInt64) : Session := ⟨now, .empty settings, []⟩

/-- The session with its cache changed and nothing asked. -/
def onCache (s : Session) (change : Cache → Cache) : Session :=
  { s with state.cache := change s.state.cache }

/-- What a caller gets when it verifies an account, and what the session is then. -/
def verify (s : Session) (caller : Caller) (account : String) : Except Failure Report × Session :=
  let run := caller.verifier.verifyAccount caller.backend s.now account s.state
  (run.1, { s with state := run.2 })

@[simp] theorem verify_result (s : Session) (caller : Caller) (account : String) :
    (s.verify caller account).1
      = (caller.verifier.verifyAccount caller.backend s.now account s.state).1 := rfl

@[simp] theorem verify_state (s : Session) (caller : Caller) (account : String) :
    (s.verify caller account).2.state
      = (caller.verifier.verifyAccount caller.backend s.now account s.state).2 := rfl

variable {κ : Type} (callers : κ → Caller)

def step (s : Session) : Action κ → Session
  | .verify caller account => (s.verify (callers caller) account).2
  | .setClock now => { s with now }
  | .remove t key => s.onCache fun c => (c.remove t key).2
  | .clear => s.onCache Cache.clear
  | .clearTable t => s.onCache (·.clearTable t)
  | .prune => s.onCache fun c => (c.prune s.now).2
  | .pruneTable t => s.onCache fun c => (c.pruneTable t s.now).2
  | .evict => s.onCache Cache.evictOldest

def run (s : Session) (actions : List (Action κ)) : Session := actions.foldl (step callers) s

end Session

end LightClient
