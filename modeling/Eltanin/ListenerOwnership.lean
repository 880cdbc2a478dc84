import Eltanin.ListenerModel

/-!
# Who owns the socket path

A path names at most one socket, and a socket can only be bound where nothing
is.  As long as no unlink hits a socket which its process still owns, the path
therefore names the socket of every process which owns one, and there is at
most one of them.  The unlink of a dropped socket hits its own.  The unlink of
the stale-socket recovery relies on a probe made earlier, and the path may have
changed hands since, or its owner may just not listen yet.
-/

namespace Eltanin.Agent

open PartialExecution InterleavedSessions

namespace ListenerState

/-- This call is about to unlink a socket which another process holds. -/
def UnlinksHeld (state : ListenerState) (i : ℕ) (call : BindCall) : Prop :=
  (∃ reply, reply.fault = false ∧
    (call = .removeStale reply ∨ call = .drop reply)) ∧
  ∃ (j : ℕ) (other : Starter) (id : ℕ), j ≠ i ∧
    state.sessions[j]? = some other ∧ other.phase = .holding id ∧
    state.shared.entry.socket? = some id

/-- No held socket is unlinked by another process on the way, at most one
process holds one in the end, and a connection to the path reaches it. -/
structure KeepsOwner (path : SocketPath) (actions : List ListenerAction)
    (final : ListenerState) : Prop where
  unlinks : ∀ {before after i call state},
    actions = before ++ .act i call :: after → Runs path before state →
      ¬state.UnlinksHeld i call
  unique : ∀ {i j : ℕ} {first second : Starter} {id other : ℕ},
    final.sessions[i]? = some first → first.phase = .holding id →
    final.sessions[j]? = some second → second.phase = .holding other → i = j
  reached : ∀ {i : ℕ} {process : Starter} {id : ℕ},
    final.sessions[i]? = some process → process.phase = .holding id →
      final.shared.entry = .socket id true

/-- Where a stale socket is removed, no process owns what is at the path. -/
def RemovesUnowned (state : ListenerState) : ListenerAction → Prop
  | .act _ (.removeStale reply) =>
      reply.fault = false → ∀ process ∈ state.sessions,
        process.phase.owned? ≠ none →
        process.phase.owned? ≠ state.shared.entry.socket?
  | _ => True

instance (state : ListenerState) (action : ListenerAction) :
    Decidable (RemovesUnowned state action) := by
  unfold RemovesUnowned
  split <;> infer_instance

end ListenerState

/-! ## What one call changes -/

/-- The effect of a call on the path and on what the process has open. -/
inductive BindTransition (path : SocketPath) (phase : BindPhase) :
    BindCall → SocketPath → BindPhase → Prop
  | quiet {call : BindCall} {next : BindPhase}
      (hopen : next.socket? = phase.socket? ∨ next.socket? = none)
      (howned : next.owned? = none ∨
        (next.owned? = phase.owned? ∧ next.isListening = phase.isListening)) :
      BindTransition path phase call path next
  | bound {reply : SystemReply} {recovered : Bool}
      (hempty : path.entry = .empty) :
      BindTransition path phase (.bind reply) path.bind
        (.bound path.nextSocket recovered)
  | listened {reply : SystemReply} {id : ℕ} {recovered : Bool}
      (hbound : phase = .bound id recovered) :
      BindTransition path phase (.listen reply) (path.setListening id true)
        (.listening id)
  | removed {reply : SystemReply} (hreply : reply.fault = false)
      (hremoving : phase = .removing) :
      BindTransition path phase (.removeStale reply) path.unlink
        (.binding true)
  | dropped {reply : SystemReply} {id : ℕ} (hholding : phase = .holding id) :
      BindTransition path phase (.drop reply) path.unlink (.closing id none)
  | closed {call : BindCall} {id : ℕ} {next : BindPhase}
      (hopen : phase.socket? = some id) (hnext : next.socket? = none)
      (howned : next.owned? = none) :
      BindTransition path phase call (path.setListening id false) next

theorem bindTransition_of_act {path next : SocketPath}
    {process after : Starter} {call : BindCall} {new : List Empty}
    (hact : process.act path call = some (next, after, new)) :
    BindTransition path process.phase call next after.phase := by
  unfold Starter.act at hact
  split at hact
  next hphase =>
    split at hact
    all_goals
      cases hact
      exact .quiet (.inr rfl) (.inl rfl)
  next recovered reply hphase =>
    split at hact
    · cases hact
      exact .quiet (.inr rfl) (.inl rfl)
    split at hact
    next hempty =>
      cases hact
      exact .bound hempty
    split at hact
    all_goals
      cases hact
      exact .quiet (.inr rfl) (.inl rfl)
  next id recovered reply hphase =>
    split at hact
    · cases hact
      exact .quiet (.inl (by rw [hphase]; rfl)) (.inl rfl)
    · cases hact
      exact .listened hphase
  next reply hphase =>
    split at hact
    · cases hact
      exact .quiet (.inr rfl) (.inl rfl)
    split at hact
    all_goals
      cases hact
      exact .quiet (.inr rfl) (.inl rfl)
  next reply hphase =>
    split at hact
    · cases hact
      exact .quiet (.inr rfl) (.inl rfl)
    split at hact
    all_goals
      cases hact
      exact .quiet (.inr rfl) (.inl rfl)
  next reply hphase =>
    split at hact
    · cases hact
      exact .quiet (.inr rfl) (.inl rfl)
    next hremoves =>
      cases hact
      rw [not_or, Bool.not_eq_true] at hremoves
      exact .removed hremoves.1 hphase
  next id reply hphase =>
    split at hact
    · cases hact
      exact .quiet (.inl (by rw [hphase]; rfl)) (.inl rfl)
    · cases hact
      refine .quiet (.inl (by rw [hphase]; rfl)) (.inr ?_)
      rw [hphase]
      exact ⟨rfl, rfl⟩
  next id reply hphase =>
    cases hact
    split
    · exact .quiet (.inl (by rw [hphase]; rfl)) (.inl rfl)
    · exact .dropped hphase
  next id error hphase =>
    cases hact
    have hopen : process.phase.socket? = some id := by
      rw [hphase]
      rfl
    cases error with
    | none => exact .closed hopen rfl rfl
    | some error => exact .closed hopen rfl rfl
  next phase hphase =>
    split at hact
    · contradiction
    · cases hact
      cases hopen : process.phase.socket? with
      | none => exact .quiet (.inr rfl) (.inl rfl)
      | some id => exact .closed hopen rfl rfl
  · contradiction

namespace BindPhase

theorem socket?_of_owned? {phase : BindPhase} {id : ℕ}
    (howned : phase.owned? = some id) : phase.socket? = some id := by
  cases phase <;> first | exact howned | contradiction

end BindPhase

namespace SocketPath

variable {path : SocketPath} {id other : ℕ} {listening flag : Bool}

theorem nextSocket_setListening :
    (path.setListening id listening).nextSocket = path.nextSocket := by
  unfold setListening
  split <;> rfl

theorem entry_setListening_self (hentry : path.entry = .socket id flag) :
    (path.setListening id listening).entry = .socket id listening := by
  simp [setListening, hentry, PathEntry.socket?]

theorem entry_setListening_ne (hentry : path.entry = .socket other flag)
    (hne : id ≠ other) :
    (path.setListening id listening).entry = path.entry := by
  have hnot : ¬path.entry.socket? = some id := by
    rw [hentry, PathEntry.socket?, Option.some.injEq]
    exact fun heq => hne heq.symm
  rw [setListening, if_neg hnot]

end SocketPath

namespace BindTransition

variable {path next : SocketPath} {phase after : BindPhase} {call : BindCall}
  {id other : ℕ} {flag : Bool}

theorem nextSocket_le
    (htransition : BindTransition path phase call next after) :
    path.nextSocket ≤ next.nextSocket := by
  cases htransition with
  | quiet _ _ => exact Nat.le_refl _
  | bound _ => exact Nat.le_succ _
  | listened _ => exact Nat.le_of_eq SocketPath.nextSocket_setListening.symm
  | removed _ _ => exact Nat.le_refl _
  | dropped _ => exact Nat.le_refl _
  | closed _ _ _ => exact Nat.le_of_eq SocketPath.nextSocket_setListening.symm

/-- A process keeps the socket it has or gets a new one. -/
theorem socket?_cases
    (htransition : BindTransition path phase call next after)
    (hopen : after.socket? = some id) :
    phase.socket? = some id ∨
      (id = path.nextSocket ∧ next.nextSocket = id + 1) := by
  cases htransition with
  | quiet hkept _ =>
      rcases hkept with hsame | hnone
      · exact .inl (hsame ▸ hopen)
      · rw [hnone] at hopen
        contradiction
  | bound _ =>
      have heq : path.nextSocket = id := Option.some.inj hopen
      exact .inr ⟨heq.symm, by rw [← heq]; rfl⟩
  | listened hbound =>
      rw [hbound]
      exact .inl hopen
  | removed _ _ => contradiction
  | dropped hholding =>
      rw [hholding]
      exact .inl hopen
  | closed _ hnext _ =>
      rw [hnext] at hopen
      contradiction

/-- The path still names what the process of this call owns. -/
theorem named (htransition : BindTransition path phase call next after)
    (hnamed : ∀ id, phase.owned? = some id →
      path.entry = .socket id phase.isListening)
    (howned : after.owned? = some id) :
    next.entry = .socket id after.isListening := by
  cases htransition with
  | quiet _ hkept =>
      rcases hkept with hnone | ⟨hsame, hlistening⟩
      · rw [hnone] at howned
        contradiction
      · rw [hlistening]
        exact hnamed id (hsame ▸ howned)
  | bound _ =>
      rw [← Option.some.inj howned]
      rfl
  | @listened _ bound recovered hbound =>
      have hentry := hnamed bound (by rw [hbound]; rfl)
      rw [← Option.some.inj howned]
      exact SocketPath.entry_setListening_self hentry
  | removed _ _ => contradiction
  | dropped _ => contradiction
  | closed _ _ hnone =>
      rw [hnone] at howned
      contradiction

/-- A socket which the process of this call does not have open keeps its
name, unless it is removed as a stale one. -/
theorem entry_eq (htransition : BindTransition path phase call next after)
    (hnamed : ∀ id, phase.owned? = some id →
      path.entry = .socket id phase.isListening)
    (hentry : path.entry = .socket other flag)
    (hother : phase.socket? ≠ some other)
    (hkept : ∀ reply, reply.fault = false → call ≠ .removeStale reply) :
    next.entry = path.entry := by
  cases htransition with
  | quiet _ _ => rfl
  | bound hempty =>
      rw [hentry] at hempty
      contradiction
  | listened hbound =>
      apply SocketPath.entry_setListening_ne hentry
      rintro rfl
      exact hother (by rw [hbound]; rfl)
  | removed hreply _ => exact (hkept _ hreply rfl).elim
  | @dropped _ held hholding =>
      have hheld := hnamed held (by rw [hholding]; rfl)
      rw [hheld, PathEntry.socket.injEq] at hentry
      exact (hother (by rw [hholding, ← hentry.1]; rfl)).elim
  | closed hopen _ _ =>
      apply SocketPath.entry_setListening_ne hentry
      rintro rfl
      exact hother hopen

end BindTransition

/-! ## Runs -/

namespace ListenerState

/-- No socket is open twice, and the path names every owned one. -/
structure Owned (state : ListenerState) : Prop where
  fresh : ∀ {i : ℕ} {process : Starter} {id : ℕ},
    state.sessions[i]? = some process → process.phase.socket? = some id →
      id < state.shared.nextSocket
  distinct : ∀ {i j : ℕ} {first second : Starter} {id : ℕ},
    state.sessions[i]? = some first → first.phase.socket? = some id →
    state.sessions[j]? = some second → second.phase.socket? = some id →
      i = j
  named : ∀ {i : ℕ} {process : Starter} {id : ℕ},
    state.sessions[i]? = some process → process.phase.owned? = some id →
      state.shared.entry = .socket id process.phase.isListening

variable {state : ListenerState} {i : ℕ} {process after : Starter}
  {call : BindCall} {next : SocketPath} {new : List Empty}

theorem owned_initial (path : SocketPath) :
    Owned (System.initial path) := by
  constructor <;> simp [System.initial]

theorem Owned.enroll (howned : Owned state) (config : AgentConfig) :
    Owned (state.enroll ⟨config, .starting⟩) := by
  constructor
  case fresh =>
    intro j other id hother hopen
    rcases System.getElem?_enroll_eq_some_iff.mp hother with
      ⟨_, heq⟩ | hold
    · rw [heq] at hopen
      contradiction
    · exact howned.fresh hold hopen
  case distinct =>
    intro j k first second id hfirst hopen hsecond hopen'
    rcases System.getElem?_enroll_eq_some_iff.mp hfirst with
      ⟨_, heq⟩ | hfirst
    · rw [heq] at hopen
      contradiction
    rcases System.getElem?_enroll_eq_some_iff.mp hsecond with
      ⟨_, heq⟩ | hsecond
    · rw [heq] at hopen'
      contradiction
    exact howned.distinct hfirst hopen hsecond hopen'
  case named =>
    intro j other id hother howns
    rcases System.getElem?_enroll_eq_some_iff.mp hother with
      ⟨_, heq⟩ | hold
    · rw [heq] at howns
      contradiction
    · exact howned.named hold howns

/-- The socket of this process is not the one another process has open. -/
theorem Owned.socket?_ne (howned : Owned state)
    (hprocess : state.sessions[i]? = some process) {j : ℕ} {other : Starter}
    {id : ℕ} (hother : state.sessions[j]? = some other) (hne : j ≠ i)
    (hopen : other.phase.socket? = some id) :
    process.phase.socket? ≠ some id := by
  intro hsame
  exact hne (howned.distinct hother hopen hprocess hsame)

theorem Owned.advance (howned : Owned state)
    (hprocess : state.sessions[i]? = some process)
    (htransition : BindTransition state.shared process.phase call next
      after.phase)
    (hguard : RemovesUnowned state (.act i call)) :
    Owned (state.advance i next after new) := by
  have hle := htransition.nextSocket_le
  have hfound := fun {j : ℕ} {other : Starter}
      (hother : (state.advance i next after new).sessions[j]? = some other) =>
    (System.getElem?_advance_eq_some_iff hprocess).mp hother
  constructor
  case fresh =>
    intro j other id hother hopen
    change id < next.nextSocket
    rcases hfound hother with ⟨_, rfl⟩ | ⟨_, hold⟩
    · rcases htransition.socket?_cases hopen with hkept | ⟨_, hnext⟩
      · exact Nat.lt_of_lt_of_le (howned.fresh hprocess hkept) hle
      · omega
    · exact Nat.lt_of_lt_of_le (howned.fresh hold hopen) hle
  case distinct =>
    have hapart : ∀ {j : ℕ} {other : Starter} {id : ℕ}, j ≠ i →
        state.sessions[j]? = some other → other.phase.socket? = some id →
        after.phase.socket? ≠ some id := by
      intro j other id hne hother hopen hsame
      rcases htransition.socket?_cases hsame with hkept | ⟨hnew, _⟩
      · exact howned.socket?_ne hprocess hother hne hopen hkept
      · have hlt := howned.fresh hother hopen
        omega
    intro j k first second id hfirst hopen hsecond hopen'
    rcases hfound hfirst with ⟨hj, rfl⟩ | ⟨hj, holdFirst⟩
    · rcases hfound hsecond with ⟨hk, _⟩ | ⟨hk, holdSecond⟩
      · rw [hj, hk]
      · exact (hapart hk holdSecond hopen' hopen).elim
    · rcases hfound hsecond with ⟨hk, rfl⟩ | ⟨hk, holdSecond⟩
      · exact (hapart hj holdFirst hopen hopen').elim
      · exact howned.distinct holdFirst hopen holdSecond hopen'
  case named =>
    have hnamed : ∀ id, process.phase.owned? = some id →
        state.shared.entry = .socket id process.phase.isListening :=
      fun id howns => howned.named hprocess howns
    intro j other id hother howns
    change next.entry = _
    rcases hfound hother with ⟨_, rfl⟩ | ⟨hne, hold⟩
    · exact htransition.named hnamed howns
    · have hentry := howned.named hold howns
      rw [htransition.entry_eq hnamed hentry
        (howned.socket?_ne hprocess hold hne
          (BindPhase.socket?_of_owned? howns)) ?_, hentry]
      rintro reply hreply rfl
      have hunowned := hguard hreply other (List.mem_of_getElem? hold)
      rw [howns, hentry] at hunowned
      exact hunowned (by simp) rfl

section Runs

variable {path : SocketPath} {actions : List ListenerAction}
  {final : ListenerState}

theorem owned_of_run
    (hguarded : Guarded RemovesUnowned program.step (System.initial path)
      actions)
    (hruns : Runs path actions final) : Owned final := by
  refine Program.guarded_run_invariant RemovesUnowned Owned ?_ ?_
    (owned_initial path) hguarded hruns
  · intro state config howned
    exact howned.enroll config
  · intro state i call process next after new _ howned hguard hprocess hact
    exact howned.advance hprocess (bindTransition_of_act hact) hguard

theorem holding_of_act_drop {reply : SystemReply}
    (hact : process.act state.shared (.drop reply) =
      some (next, after, new)) :
    ∃ id, process.phase = .holding id := by
  unfold Starter.act at hact
  split at hact
  all_goals first | contradiction | exact ⟨_, ‹_›⟩

theorem Owned.not_unlinksHeld (howned : Owned state)
    (hguard : RemovesUnowned state (.act i call))
    (hprocess : state.sessions[i]? = some process)
    (hact : process.act state.shared call = some (next, after, new)) :
    ¬state.UnlinksHeld i call := by
  rintro ⟨⟨reply, hreply, hcall⟩, j, other, id, hne, hother, hholding, hnames⟩
  have howns : other.phase.owned? = some id := by
    rw [hholding]
    rfl
  rcases hcall with rfl | rfl
  · have hunowned := hguard hreply other (List.mem_of_getElem? hother)
    rw [howns, hnames] at hunowned
    exact hunowned (by simp) rfl
  · -- only a holder drops, and the path names what it holds
    rcases holding_of_act_drop hact with ⟨held, hheld⟩
    have hopen : process.phase.socket? = some held := by
      rw [hheld]
      rfl
    have hentry := howned.named hprocess (by rw [hheld]; rfl)
    rw [hentry, PathEntry.socket?, Option.some.injEq] at hnames
    rw [hnames] at hopen
    exact howned.socket?_ne hprocess hother hne
      (BindPhase.socket?_of_owned? howns) hopen

/-- As long as stale sockets are removed only where nobody owns what is at
the path, a live agent keeps its path. -/
theorem owner_keeps_path
    (hguarded : Guarded RemovesUnowned program.step (System.initial path)
      actions)
    (hruns : Runs path actions final) : KeepsOwner path actions final := by
  have howned := owned_of_run hguarded hruns
  have hnamed : ∀ {i : ℕ} {process : Starter} {id : ℕ},
      final.sessions[i]? = some process → process.phase = .holding id →
        final.shared.entry = .socket id true := by
    intro i process id hprocess hholding
    have hentry := howned.named hprocess (by rw [hholding]; rfl)
    rwa [hholding] at hentry
  constructor
  case unlinks =>
    intro before after i call state hsplit hbefore
    subst hsplit
    obtain ⟨hguardedBefore, hguard⟩ := hguarded.split hbefore
    obtain ⟨middle, hmiddle, hrest⟩ := execute_append_eq_some_iff.mp hruns
    rw [hbefore, Option.some.injEq] at hmiddle
    subst hmiddle
    obtain ⟨next, hstep, _⟩ := execute_cons_eq_some_iff.mp hrest
    obtain ⟨process, path', process', new, hprocess, hact, _⟩ :=
      Program.step_act_eq_some_iff.mp hstep
    exact (owned_of_run hguardedBefore hbefore).not_unlinksHeld hguard
      hprocess hact
  case unique =>
    intro i j first second id other hfirst hholding hsecond hholding'
    have hsame := hnamed hfirst hholding
    rw [hnamed hsecond hholding', PathEntry.socket.injEq] at hsame
    have hid : other = id := hsame.1
    subst hid
    exact howned.distinct hfirst (by rw [hholding]; rfl) hsecond
      (by rw [hholding']; rfl)
  case reached =>
    intro i process id hprocess hholding
    exact hnamed hprocess hholding

end Runs

/-! ## Two agents started at once -/

def sampleAgent : AgentConfig := ⟨"/run/eltanin/agent.sock", 0o660⟩

def granted : SystemReply := ⟨false, ""⟩

def addressInUse : SystemReply := ⟨false, "Address already in use"⟩

def privateParent : BindCall :=
  .ensureParent "/run/eltanin" 0 (.found ⟨false, true, 0o700, 0⟩)

/-- A crashed agent has left its socket behind; the next one recovers it. -/
def recoveryActions : List ListenerAction :=
  [.start sampleAgent,
    .act 0 privateParent,
    .act 0 (.bind addressInUse),
    .act 0 (.stat granted),
    .act 0 (.probe granted),
    .act 0 (.removeStale granted),
    .act 0 (.bind granted),
    .act 0 (.listen granted),
    .act 0 (.setPermissions granted)]

def stalePath : SocketPath := ⟨.socket 0 false, 1⟩

def recoveredState : ListenerState :=
  ⟨⟨.socket 1 true, 2⟩, [⟨sampleAgent, .holding 1⟩], []⟩

theorem recovered_owner_keeps_path :
    KeepsOwner stalePath recoveryActions recoveredState :=
  owner_keeps_path (by decide) rfl

/-- The second agent probes the path between the first one's `bind` and
`listen`, and unlinks the socket once the first agent holds it. -/
def overtakenActions : List ListenerAction :=
  [.start sampleAgent,
    .start sampleAgent,
    .act 0 privateParent,
    .act 1 privateParent,
    .act 0 (.bind granted),
    .act 1 (.bind addressInUse),
    .act 1 (.stat granted),
    .act 1 (.probe granted),
    .act 0 (.listen granted),
    .act 0 (.setPermissions granted),
    .act 1 (.removeStale granted),
    .act 1 (.bind granted),
    .act 1 (.listen granted),
    .act 1 (.setPermissions granted)]

def overtakenState : ListenerState :=
  ⟨⟨.socket 1 true, 2⟩,
    [⟨sampleAgent, .holding 0⟩, ⟨sampleAgent, .holding 1⟩], []⟩

theorem live_agent_can_lose_path :
    ¬∀ (path : SocketPath) (actions : List ListenerAction)
        (final : ListenerState),
      Runs path actions final → KeepsOwner path actions final := by
  intro hall
  have hkeeps := hall ⟨.empty, 0⟩ overtakenActions overtakenState rfl
  have hsame : 0 = 1 := hkeeps.unique (i := 0) (j := 1) rfl rfl rfl rfl
  contradiction

end ListenerState

end Eltanin.Agent
