import Eltanin.InterleavedSessions

/-!
# Binding the agent's socket

A process which starts an agent checks the parent directory, binds the path,
and when the address is in use looks at what is there: a socket which refuses
a connection is taken for a leftover, unlinked, and the path bound again.
Dropping the bound socket unlinks the path by its name.  Each call of the
operating system is one atomic step, between which any other process may run,
and a process may crash at any of them.
-/

namespace Eltanin.Agent

open InterleavedSessions

/-- The part of the configuration which binding reads. -/
structure AgentConfig where
  socketPath : String
  socketMode : UInt32
  deriving DecidableEq, Repr

inductive StartupError where
  | parentDirectoryUnsafe (path reason : String)
  | socketInUse (path : String)
  | staleSocketPathNotASocket (path : String)
  | io (reason : String)
  deriving DecidableEq, Repr

/-! ## The parent directory -/

structure Metadata where
  isSymlink : Bool
  isDir : Bool
  mode : UInt32
  uid : UInt32
  deriving DecidableEq, Repr

/-- What `symlink_metadata` finds at the parent directory.  One which is not
there is created and made private; either may fail. -/
inductive ParentLookup where
  | found (metadata : Metadata)
  | notFound (created chmodded : Except String Unit)
  | failed (error : String)

def octal (mode : UInt32) : String :=
  String.ofList (Nat.toDigits 8 mode.toNat)

def ensureParentDirectoryIsSafe (parent : String) (ownEuid : UInt32) :
    ParentLookup → Except StartupError Unit
  | .found metadata =>
      if metadata.isSymlink then
        .error (.parentDirectoryUnsafe parent "is a symlink")
      else if metadata.isDir = false then
        .error (.parentDirectoryUnsafe parent "is not a directory")
      else if metadata.mode &&& 0o022 ≠ 0 then
        .error (.parentDirectoryUnsafe parent
          ("is group/other-writable (mode " ++
            octal (metadata.mode &&& 0o777) ++ ")"))
      else if metadata.uid ≠ ownEuid then
        .error (.parentDirectoryUnsafe parent
          ("owned by uid " ++ toString metadata.uid ++
            ", not this process's uid " ++ toString ownEuid))
      else .ok ()
  | .notFound created chmodded =>
      match created with
      | .error error =>
          .error (.io ("create parent directory " ++ parent ++ ": " ++ error))
      | .ok () =>
          match chmodded with
          | .error error =>
              .error (.io ("chmod parent directory " ++ parent ++ ": " ++
                error))
          | .ok () => .ok ()
  | .failed error =>
      .error (.io ("stat parent directory " ++ parent ++ ": " ++ error))

/-! ## The socket path -/

/-- What is at the path.  A socket is named by the number it was created
under; it listens or it does not. -/
inductive PathEntry where
  | empty
  | nonSocket
  | socket (id : ℕ) (listening : Bool)
  deriving DecidableEq, Repr

def PathEntry.socket? : PathEntry → Option ℕ
  | .socket id _ => some id
  | _ => none

structure SocketPath where
  entry : PathEntry
  nextSocket : ℕ
  deriving DecidableEq, Repr

namespace SocketPath

/-- A new socket at an empty path; it does not listen yet. -/
def bind (self : SocketPath) : SocketPath :=
  ⟨.socket self.nextSocket false, self.nextSocket + 1⟩

def unlink (self : SocketPath) : SocketPath := { self with entry := .empty }

/-- A socket which no longer has a name listens or closes unseen. -/
def setListening (self : SocketPath) (id : ℕ) (listening : Bool) :
    SocketPath :=
  if self.entry.socket? = some id then
    { self with entry := .socket id listening }
  else self

end SocketPath

/-! ## One process -/

/-- Where a process is in `BoundSocket::bind`, or in the life of what it
returned.  `recovered` says that the bind is the second one. -/
inductive BindPhase where
  | starting
  | binding (recovered : Bool)
  | bound (id : ℕ) (recovered : Bool)
  | statting
  | probing
  | removing
  | listening (id : ℕ)
  | holding (id : ℕ)
  | closing (id : ℕ) (error : Option StartupError)
  | failed (error : StartupError)
  | dropped
  | crashed
  deriving DecidableEq

structure Starter where
  config : AgentConfig
  phase : BindPhase
  deriving DecidableEq

/-- Whether a call fails for a reason which the path does not show, and how
its error reads if it fails. -/
structure SystemReply where
  fault : Bool
  error : String
  deriving DecidableEq, Repr

inductive BindCall where
  | ensureParent (parent : String) (ownEuid : UInt32) (lookup : ParentLookup)
  | bind (reply : SystemReply)
  | listen (reply : SystemReply)
  | stat (reply : SystemReply)
  | probe (reply : SystemReply)
  | removeStale (reply : SystemReply)
  | setPermissions (reply : SystemReply)
  | drop (reply : SystemReply)
  | close
  | crash

namespace BindPhase

/-- The socket which the process has open. -/
def socket? : BindPhase → Option ℕ
  | .bound id _ => some id
  | .listening id => some id
  | .holding id => some id
  | .closing id _ => some id
  | _ => none

/-- The socket which the process has bound and not given up. -/
def owned? : BindPhase → Option ℕ
  | .bound id _ => some id
  | .listening id => some id
  | .holding id => some id
  | _ => none

def isListening : BindPhase → Bool
  | .bound _ _ => false
  | _ => true

def ended : BindPhase → Bool
  | .failed _ => true
  | .dropped => true
  | .crashed => true
  | _ => false

end BindPhase

namespace Starter

def advanceTo (self : Starter) (phase : BindPhase) : Starter :=
  { self with phase := phase }

def bindError (self : Starter) (recovered : Bool) (error : String) :
    StartupError :=
  if recovered then
    .io ("bind " ++ self.config.socketPath ++
      " after stale-socket recovery: " ++ error)
  else .io ("bind " ++ self.config.socketPath ++ ": " ++ error)

/-- One call of the operating system; `none` when the process is not at a
point where it could make it. -/
def act (path : SocketPath) (self : Starter) (call : BindCall) :
    Option (SocketPath × Starter × List Empty) :=
  match self.phase, call with
  | .starting, .ensureParent parent ownEuid lookup =>
      match ensureParentDirectoryIsSafe parent ownEuid lookup with
      | .error error => some (path, self.advanceTo (.failed error), [])
      | .ok () => some (path, self.advanceTo (.binding false), [])
  | .binding recovered, .bind reply =>
      if reply.fault then
        some (path,
          self.advanceTo (.failed (self.bindError recovered reply.error)), [])
      else if path.entry = .empty then
        some (path.bind, self.advanceTo (.bound path.nextSocket recovered),
          [])
      else if recovered then
        some (path,
          self.advanceTo (.failed (self.bindError true reply.error)), [])
      else some (path, self.advanceTo .statting, [])
  | .bound id recovered, .listen reply =>
      if reply.fault then
        some (path,
          self.advanceTo
            (.closing id (some (self.bindError recovered reply.error))), [])
      else
        some (path.setListening id true, self.advanceTo (.listening id), [])
  | .statting, .stat reply =>
      if reply.fault ∨ path.entry = .empty then
        some (path, self.advanceTo (.failed
          (.io ("stat " ++ self.config.socketPath ++ ": " ++ reply.error))),
          [])
      else if path.entry = .nonSocket then
        some (path, self.advanceTo (.failed
          (.staleSocketPathNotASocket self.config.socketPath)), [])
      else some (path, self.advanceTo .probing, [])
  | .probing, .probe reply =>
      if reply.fault ∨ path.entry = .empty then
        some (path, self.advanceTo (.failed
          (.io ("probe " ++ self.config.socketPath ++ ": " ++ reply.error))),
          [])
      else
        match path.entry with
        | .socket _ true =>
            some (path, self.advanceTo
              (.failed (.socketInUse self.config.socketPath)), [])
        -- nobody listens there: the connection is refused
        | _ => some (path, self.advanceTo .removing, [])
  | .removing, .removeStale reply =>
      if reply.fault ∨ path.entry = .empty then
        some (path, self.advanceTo (.failed
          (.io ("remove stale socket " ++ self.config.socketPath ++ ": " ++
            reply.error))), [])
      else some (path.unlink, self.advanceTo (.binding true), [])
  | .listening id, .setPermissions reply =>
      if reply.fault ∨ path.entry = .empty then
        some (path, self.advanceTo (.closing id
          (some (.io ("chmod " ++ self.config.socketPath ++ ": " ++
            reply.error)))), [])
      else some (path, self.advanceTo (.holding id), [])
  -- the result of `remove_file` is discarded
  | .holding id, .drop reply =>
      some (if reply.fault then path else path.unlink,
        self.advanceTo (.closing id none), [])
  | .closing id error, .close =>
      some (path.setListening id false,
        self.advanceTo (error.elim .dropped .failed), [])
  | phase, .crash =>
      if phase.ended then none
      else
        some (phase.socket?.elim path (path.setListening · false),
          self.advanceTo .crashed, [])
  | _, _ => none

end Starter

/-! ## All processes -/

abbrev ListenerState := System SocketPath Starter Empty

abbrev ListenerAction := Action AgentConfig BindCall

namespace ListenerState

def program : Program SocketPath Starter AgentConfig BindCall Empty where
  start config := ⟨config, .starting⟩
  act := Starter.act

/-- The calls of any number of processes, in this order, lead from the path
to this state. -/
def Runs (path : SocketPath) (actions : List ListenerAction)
    (final : ListenerState) : Prop :=
  PartialExecution.execute program.step (System.initial path) actions =
    some final

end ListenerState

end Eltanin.Agent
