import Eltanin.PartialExecution
import Mathlib.Algebra.BigOperators.Group.Finset.Piecewise

/-!
# Interleaved sessions over a shared state

Any number of sessions run one program against a shared state.  A session is
started by the environment, and each of its actions reads and replaces the
shared state and its own local state atomically and leaves events in a
transcript, tagged with the session.  An execution interleaves the actions of
all sessions arbitrarily; what one session alone has done is always a word of
the program.
-/

namespace InterleavedSessions

open PartialExecution

/-- `start` gives the local state in which a session begins; `act` is one
atomic action, which may not be enabled. -/
structure Program (σ τ ω α η : Type*) where
  start : ω → τ
  act : σ → τ → α → Option (σ × τ × List η)

structure System (σ τ η : Type*) where
  shared : σ
  sessions : List τ
  transcript : List (ℕ × η)

inductive Action (ω α : Type*) where
  | start (opening : ω)
  | act (session : ℕ) (action : α)

variable {σ τ ω α η : Type*}

namespace System

def enroll (system : System σ τ η) (session : τ) : System σ τ η :=
  { system with sessions := system.sessions ++ [session] }

def advance (system : System σ τ η) (session : ℕ) (shared : σ) (next : τ)
    (new : List η) : System σ τ η where
  shared := shared
  sessions := system.sessions.set session next
  transcript := system.transcript ++ new.map (session, ·)

def wordOf (system : System σ τ η) (session : ℕ) : List η :=
  (system.transcript.filter fun event => event.1 = session).map Prod.snd

end System

def Program.step (program : Program σ τ ω α η) (system : System σ τ η) :
    Action ω α → Option (System σ τ η)
  | .start opening => some (system.enroll (program.start opening))
  | .act session action =>
      match system.sessions[session]? with
      | none => none
      | some current =>
          match program.act system.shared current action with
          | none => none
          | some (shared, next, new) =>
              some (system.advance session shared next new)

def System.initial (shared : σ) : System σ τ η := ⟨shared, [], []⟩

/-- What a session which began with `opening` can have done when it is in the
given local state, whatever the other sessions did to the shared state. -/
inductive Program.Word (program : Program σ τ ω α η) (opening : ω) :
    τ → List η → Prop
  | start : Word program opening (program.start opening) []
  | act {current next : τ} {word new : List η} {before after : σ}
      {action : α} (hword : Word program opening current word)
      (hact : program.act before current action = some (after, next, new)) :
      Word program opening next (word ++ new)

namespace System

variable {system : System σ τ η} {session other : ℕ} {current next found : τ}
  {shared : σ} {new : List η}

theorem mem_wordOf_iff {event : η} :
    event ∈ system.wordOf session ↔ (session, event) ∈ system.transcript := by
  simp [wordOf]

theorem wordOf_sublist :
    (system.wordOf session).Sublist (system.transcript.map Prod.snd) :=
  List.filter_sublist.map Prod.snd

theorem getElem?_enroll_eq_some_iff :
    (system.enroll next).sessions[session]? = some found ↔
      (session = system.sessions.length ∧ found = next) ∨
        system.sessions[session]? = some found := by
  simp only [enroll, List.getElem?_append]
  by_cases hlt : session < system.sessions.length
  · have hne : session ≠ system.sessions.length := by omega
    simp [hlt, hne]
  · have hnone : system.sessions[session]? = none :=
      List.getElem?_eq_none (Nat.not_lt.mp hlt)
    by_cases heq : session = system.sessions.length
    · simp [heq, eq_comm]
    · have hpos : session - system.sessions.length ≠ 0 := by omega
      simp [hlt, heq, hpos]

theorem getElem?_advance_eq_some_iff
    (hcurrent : system.sessions[session]? = some current) :
    (system.advance session shared next new).sessions[other]? = some found ↔
      (other = session ∧ found = next) ∨
        (other ≠ session ∧ system.sessions[other]? = some found) := by
  have hlt : session < system.sessions.length :=
    (List.getElem?_eq_some_iff.mp hcurrent).1
  by_cases heq : other = session
  · subst heq
    simp [advance, hlt, eq_comm]
  · simp [advance, heq, List.getElem?_set_ne (Ne.symm heq)]

theorem wordOf_enroll : (system.enroll next).wordOf session =
    system.wordOf session := rfl

theorem wordOf_advance_self :
    (system.advance session shared next new).wordOf session =
      system.wordOf session ++ new := by
  simp [wordOf, advance, List.filter_map, Function.comp_def]

theorem wordOf_advance_ne (hne : other ≠ session) :
    (system.advance session shared next new).wordOf other =
      system.wordOf other := by
  simp [wordOf, advance, List.filter_map, Function.comp_def, hne.symm]

theorem mem_transcript_advance_iff {event : ℕ × η} :
    event ∈ (system.advance session shared next new).transcript ↔
      event ∈ system.transcript ∨
        event.1 = session ∧ event.2 ∈ new := by
  obtain ⟨tag, happening⟩ := event
  simp [advance, eq_comm, and_comm]

/-! ## Counting events -/

theorem countP_eq_sum_words (p : η → Bool) {events : List (ℕ × η)} {n : ℕ}
    (htags : ∀ event ∈ events, event.1 < n) :
    events.countP (fun event => p event.2) =
      ∑ i ∈ Finset.range n,
        ((events.filter fun event => event.1 = i).map Prod.snd).countP p := by
  induction events with
  | nil => simp
  | cons event rest ih =>
      have hrest := ih fun other hother =>
        htags other (List.mem_cons_of_mem event hother)
      have htag : event.1 ∈ Finset.range n :=
        Finset.mem_range.mpr (htags event List.mem_cons_self)
      have hword : ∀ i,
          (((event :: rest).filter fun event => event.1 = i).map
            Prod.snd).countP p =
            ((rest.filter fun event => event.1 = i).map Prod.snd).countP p +
              if i = event.1 then (if p event.2 then 1 else 0) else 0 := by
        intro i
        by_cases hi : event.1 = i
        · simp [hi, List.countP_cons]
        · simp [hi, Ne.symm hi]
      simp only [hword, Finset.sum_add_distrib, Finset.sum_ite_eq', htag,
        if_true, List.countP_cons, hrest]

/-- What is counted over the transcript is the sum over the sessions. -/
theorem countP_transcript (p : η → Bool)
    (htags : ∀ event ∈ system.transcript,
      event.1 < system.sessions.length) :
    system.transcript.countP (fun event => p event.2) =
      ∑ i ∈ Finset.range system.sessions.length,
        (system.wordOf i).countP p :=
  countP_eq_sum_words p htags

end System

namespace Program

variable {program : Program σ τ ω α η} {system next : System σ τ η}

theorem step_act_eq_some_iff {session : ℕ} {action : α} :
    program.step system (.act session action) = some next ↔
      ∃ current shared local' new,
        system.sessions[session]? = some current ∧
          program.act system.shared current action =
            some (shared, local', new) ∧
          next = system.advance session shared local' new := by
  cases hcurrent : system.sessions[session]? with
  | none => simp [step, hcurrent]
  | some current =>
      cases hact : program.act system.shared current action with
      | none => simp [step, hcurrent, hact]
      | some result =>
          obtain ⟨shared, local', new⟩ := result
          simp only [step, hcurrent, hact, Option.some.injEq]
          constructor
          · intro hnext
            exact ⟨current, shared, local', new, rfl, hact, hnext.symm⟩
          · intro hresult
            rcases hresult with ⟨_, _, _, _, hsession, hresult, hnext⟩
            subst hsession
            rw [hact] at hresult
            cases hresult
            exact hnext.symm

/-- The induction rule for guarded runs: it is enough to enroll a session and
to perform one enabled action of one session of a reachable system. -/
theorem guarded_run_invariant
    (guard : System σ τ η → Action ω α → Prop)
    (Invariant : System σ τ η → Prop)
    {initial final : System σ τ η} {actions : List (Action ω α)}
    (henroll : ∀ system opening, Invariant system →
      Invariant (system.enroll (program.start opening)))
    (hadvance : ∀ system session action current shared next new,
      Reachable program.step initial system → Invariant system →
      guard system (.act session action) →
      system.sessions[session]? = some current →
      program.act system.shared current action = some (shared, next, new) →
      Invariant (system.advance session shared next new))
    (hinitial : Invariant initial)
    (hguarded : Guarded guard program.step initial actions)
    (hrun : execute program.step initial actions = some final) :
    Invariant final := by
  refine execute_guarded_invariant_of_reachable guard Invariant ?_ hinitial
    hguarded hrun
  intro state action next hreachable hstate hguard hstep
  cases action with
  | start opening =>
      have heq := Option.some.inj hstep
      exact heq ▸ henroll state opening hstate
  | act session action =>
      obtain ⟨current, shared, local', new, hcurrent, hact, hnext⟩ :=
        step_act_eq_some_iff.mp hstep
      rw [hnext]
      exact hadvance state session action current shared local' new
        hreachable hstate hguard hcurrent hact

theorem run_invariant
    (Invariant : System σ τ η → Prop)
    (henroll : ∀ system opening, Invariant system →
      Invariant (system.enroll (program.start opening)))
    (hadvance : ∀ system session action current shared next new,
      Invariant system → system.sessions[session]? = some current →
      program.act system.shared current action = some (shared, next, new) →
      Invariant (system.advance session shared next new))
    {initial final : System σ τ η} {actions : List (Action ω α)}
    (hinitial : Invariant initial)
    (hrun : execute program.step initial actions = some final) :
    Invariant final :=
  guarded_run_invariant (fun _ _ => True) Invariant henroll
    (fun system session action current shared next new _ hsystem _ =>
      hadvance system session action current shared next new hsystem)
    hinitial (guarded_of_forall fun _ _ _ => trivial) hrun

/-- Every event belongs to a session, and every session has done a word of the
program. -/
def Traced (program : Program σ τ ω α η) (system : System σ τ η) : Prop :=
  (∀ event ∈ system.transcript, event.1 < system.sessions.length) ∧
    ∀ (session : ℕ) (current : τ), system.sessions[session]? = some current →
      ∃ opening, program.Word opening current (system.wordOf session)

theorem Traced.enroll (htraced : Traced program system) (opening : ω) :
    Traced program (system.enroll (program.start opening)) := by
  rcases htraced with ⟨htags, hwords⟩
  constructor
  · intro event hevent
    have hold := htags event hevent
    simp only [System.enroll, List.length_append, List.length_singleton]
    omega
  · intro session current hcurrent
    rw [System.wordOf_enroll]
    rcases System.getElem?_enroll_eq_some_iff.mp hcurrent with
      ⟨hsession, hstart⟩ | hold
    · have hnone : system.wordOf session = [] := by
        simp only [System.wordOf, List.map_eq_nil_iff,
          List.filter_eq_nil_iff, decide_eq_true_eq]
        intro event hevent heq
        have hlt := htags event hevent
        omega
      rw [hnone, hstart]
      exact ⟨opening, .start⟩
    · exact hwords session current hold

theorem Traced.advance {session : ℕ} {current local' : τ} {action : α}
    {shared : σ} {new : List η} (htraced : Traced program system)
    (hcurrent : system.sessions[session]? = some current)
    (hact : program.act system.shared current action =
      some (shared, local', new)) :
    Traced program (system.advance session shared local' new) := by
  rcases htraced with ⟨htags, hwords⟩
  constructor
  · intro event hevent
    have hlength : (system.advance session shared local' new).sessions.length
        = system.sessions.length := by simp [System.advance]
    rw [hlength]
    rcases System.mem_transcript_advance_iff.mp hevent with hold | hnew
    · exact htags event hold
    · rw [hnew.1]
      exact (List.getElem?_eq_some_iff.mp hcurrent).1
  · intro other found hfound
    rcases (System.getElem?_advance_eq_some_iff hcurrent).mp hfound with
      ⟨hother, heq⟩ | ⟨hne, hold⟩
    · obtain ⟨opening, hword⟩ := hwords session current hcurrent
      rw [hother, System.wordOf_advance_self, heq]
      exact ⟨opening, .act hword hact⟩
    · rw [System.wordOf_advance_ne hne]
      exact hwords other found hold

theorem traced_of_run {shared : σ} {actions : List (Action ω α)}
    (hrun : execute program.step (System.initial shared) actions =
      some system) :
    Traced program system :=
  run_invariant (Traced program)
    (fun _ opening htraced => htraced.enroll opening)
    (fun _ _ _ _ _ _ _ htraced hcurrent hact =>
      htraced.advance hcurrent hact)
    ⟨by simp [System.initial], by simp [System.initial]⟩ hrun

end Program

end InterleavedSessions
