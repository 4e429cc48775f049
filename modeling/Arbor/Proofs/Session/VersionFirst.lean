/-
# The version comes first

Before a connection is used for queries, the remote side has said which version of the protocol it
speaks, and it was the expected one.  `Orderly` is the automaton of the calls:

| version known | call | version known then |
| --- | --- | --- |
| no | for the version, not answered | no |
| no | for the version, answered with `v` | `v` |
| the expected one | for objects | the expected one |

Every round of queries keeps to it (`Round.orderly_ended`), so every course does
(`Course.orderly`).  What follows for the calls is `VersionFirst`, and for every single round
`Round.Sound`.
-/

import Arbor.Proofs.Session.Operations

namespace Arbor

variable {σ : Type} {expected : String}

/-! ## Orderly calls -/

/-- Calls, the latest first, that leave a version known or not, where the version `expected` is
required. -/
inductive Orderly (expected : String) : Option String → List Call → Prop
  | start : Orderly expected none []
  | unanswered {calls : List Call} (cause : String) : Orderly expected none calls →
      Orderly expected none (.version (.error cause) :: calls)
  | answered {calls : List Call} (v : String) : Orderly expected none calls →
      Orderly expected (some v) (.version (.ok v) :: calls)
  | state {calls : List Call} (time : Nat) (query : String)
      (answer : Except String (List Entry)) : Orderly expected (some expected) calls →
      Orderly expected (some expected) (.state time query answer :: calls)

namespace Orderly

variable {version : Option String} {calls : List Call}

/-- The version that is known is the one that was answered. -/
theorem mem_iff (h : Orderly expected version calls) {v : String} :
    .version (.ok v) ∈ calls ↔ version = some v := by
  induction h with
  | start => simp
  | unanswered cause _ ih => simp [ih]
  | answered w _ ih => simp [ih, eq_comm]
  | state time query answer _ ih => simp [ih]

/-- What came before some calls was orderly too. -/
theorem suffix {later earlier : List Call} (h : Orderly expected version (later ++ earlier)) :
    ∃ version', Orderly expected version' earlier := by
  induction later generalizing version with
  | nil => exact ⟨version, h⟩
  | cons c rest ih =>
    cases h with
    | unanswered _ h => exact ih h
    | answered _ h => exact ih h
    | state _ _ _ h => exact ih h

/-- After an answered call for the version there is no other. -/
theorem once {later earlier : List Call} {v : String}
    (h : Orderly expected version (later ++ .version (.ok v) :: earlier)) :
    ∀ c ∈ later, c.isVersion = false := by
  induction later generalizing version with
  | nil => simp
  | cons c rest ih =>
    rw [List.cons_append] at h
    -- while nothing is known, no call for the version was answered
    have hknown : ¬Orderly expected none (rest ++ .version (.ok v) :: earlier) := by
      intro hnone
      have hmem : Call.version (.ok v) ∈ rest ++ .version (.ok v) :: earlier := by simp
      exact absurd (hnone.mem_iff.1 hmem) (by simp)
    cases h with
    | unanswered _ h => exact absurd h hknown
    | answered _ h => exact absurd h hknown
    | state _ _ _ h =>
      intro d hd
      rcases List.mem_cons.1 hd with rfl | hd
      · rfl
      · exact ih h d hd

/-- Before a call for objects the expected version was answered. -/
theorem before {later earlier : List Call} {time : Nat} {query : String}
    {answer : Except String (List Entry)}
    (h : Orderly expected version (later ++ .state time query answer :: earlier)) :
    .version (.ok expected) ∈ earlier := by
  obtain ⟨version', h⟩ := h.suffix
  cases h with
  | state _ _ _ h => exact h.mem_iff.2 rfl

/-- Without the expected version there is no call for objects. -/
theorem silent (h : Orderly expected version calls) (hversion : version ≠ some expected) :
    ∀ c ∈ calls, c.isVersion = true := by
  induction h with
  | start => simp
  | unanswered cause _ ih =>
    intro c hc
    rcases List.mem_cons.1 hc with rfl | hc
    · rfl
    · exact ih (by simp) c hc
  | answered v _ ih =>
    intro c hc
    rcases List.mem_cons.1 hc with rfl | hc
    · rfl
    · exact ih (by simp) c hc
  | state _ _ _ _ _ => exact absurd rfl hversion

theorem of_quiet {l l' : Link σ} (h : Orderly expected l.version l.calls) (hquiet : l.Quiet l') :
    Orderly expected l'.version l'.calls := by
  rw [hquiet.version, hquiet.calls]
  exact h

theorem of_learnt {l l' : Link σ} {v : String} (h : Orderly expected l.version l.calls)
    (hlearnt : Exchange.Learnt l v l') : Orderly expected l'.version l'.calls := by
  rw [hlearnt.after]
  rcases hlearnt.calls with ⟨hversion, hcalls⟩ | ⟨hversion, hcalls⟩
  · rw [hcalls, ← hversion]
    exact h
  · rw [hversion] at h
    rw [hcalls]
    exact .answered v h

theorem of_unanswered {l l' : Link σ} {cause : String} (h : Orderly expected l.version l.calls)
    (hwire : Exchange.Unanswered l cause l') : Orderly expected l'.version l'.calls := by
  rw [hwire.before] at h
  rw [hwire.after, hwire.calls]
  exact .unanswered cause h

end Orderly

/-! ## Rounds -/

/-- A connection whose calls are orderly. -/
def Link.Orderly (expected : String) (l : Link σ) : Prop :=
  Arbor.Orderly expected l.version l.calls

/-- How many calls there are for objects. -/
def stateCalls (calls : List Call) : Nat := calls.countP fun c => !c.isVersion

/-- What a round does, by what is known at its end. -/
structure Round.Sound (s : Session σ) (x : Round σ) : Prop where
  /-- There are new calls after the old ones, at most one of them for objects. -/
  atMostOne : ∃ added, (x.ended s).state.calls = added ++ x.link.calls ∧ stateCalls added ≤ 1
  /-- If the expected version was answered, there is one more call for objects. -/
  exactlyOne : .version (.ok s.options.expectedVersion) ∈ (x.ended s).state.calls →
    stateCalls (x.ended s).state.calls = stateCalls x.link.calls + 1
  /-- If another version was answered, the failure names the two, and there is no call for
  objects. -/
  refused : ∀ v, .version (.ok v) ∈ (x.ended s).state.calls → v ≠ s.options.expectedVersion →
    (x.ended s).result = .error (.versionMismatch s.options.expectedVersion v) ∧
      stateCalls (x.ended s).state.calls = 0
  /-- If no version was answered, the version was asked for, and the failure is that of the call. -/
  unanswered : (∀ v, .version (.ok v) ∉ (x.ended s).state.calls) →
    ∃ cause, (x.ended s).result = .error (.transport cause) ∧
      (x.ended s).state.calls = .version (.error cause) :: x.link.calls ∧
      stateCalls (x.ended s).state.calls = 0
  /-- As long as no version was answered, it is asked for. -/
  asks : (∀ v, .version (.ok v) ∉ x.link.calls) →
    ∃ later answer, (x.ended s).state.calls = later ++ .version answer :: x.link.calls

theorem Round.ended_cases (s : Session σ) (x : Round σ) :
    (∃ cause, (x.ended s).result = .error (.transport cause) ∧
        Exchange.Unanswered x.link cause (x.ended s).state) ∨
      (∃ v, v ≠ s.options.expectedVersion ∧
        (x.ended s).result = .error (.versionMismatch s.options.expectedVersion v) ∧
        Exchange.Learnt x.link v (x.ended s).state) ∨
      ∃ l' time answer, Exchange.Learnt x.link s.options.expectedVersion l' ∧
        (x.ended s).state.version = l'.version ∧
        (x.ended s).state.calls = .state time x.query.text answer :: l'.calls :=
  Exchange.execute_cases s.remote s.options x.query x.now x.link

theorem Round.orderly_ended {s : Session σ} {x : Round σ}
    (h : x.link.Orderly s.options.expectedVersion) :
    (x.ended s).state.Orderly s.options.expectedVersion := by
  rcases x.ended_cases s with
    ⟨cause, -, hwire⟩ | ⟨v, -, -, hwire⟩ | ⟨l', time, answer, hwire, hversion, hcalls⟩
  · exact Orderly.of_unanswered h hwire
  · exact Orderly.of_learnt h hwire
  · have hlearnt := Orderly.of_learnt h hwire
    rw [hwire.after] at hlearnt
    rw [Link.Orderly, hversion, hcalls, hwire.after]
    exact .state time _ answer hlearnt

theorem stateCalls_eq_zero {calls : List Call} (h : ∀ c ∈ calls, c.isVersion = true) :
    stateCalls calls = 0 :=
  List.countP_eq_zero.2 fun c hc => by simp [h c hc]

/-- What is added to the calls until the version is known. -/
theorem Exchange.Learnt.exists_added {l l' : Link σ} {v : String} (h : Learnt l v l') :
    ∃ added, l'.calls = added ++ l.calls ∧ stateCalls added = 0 ∧
      (l.version = none → added = [.version (.ok v)]) := by
  rcases h.calls with ⟨hversion, hcalls⟩ | ⟨hversion, hcalls⟩
  · refine ⟨[], hcalls, rfl, fun hnone => ?_⟩
    rw [hnone] at hversion
    exact absurd hversion (by simp)
  · exact ⟨[.version (.ok v)], hcalls, rfl, fun _ => rfl⟩

/-- A connection on which no version was answered has none. -/
theorem Link.Orderly.version_eq_none {l : Link σ} (h : l.Orderly expected)
    (hmem : ∀ v, .version (.ok v) ∉ l.calls) : l.version = none := by
  cases hversion : l.version with
  | none => rfl
  | some v => exact absurd (h.mem_iff.2 hversion) (hmem v)

section Sound

variable {s : Session σ} {x : Round σ}

theorem Round.sound_of_unanswered {cause : String} (h : x.link.Orderly s.options.expectedVersion)
    (hresult : (x.ended s).result = .error (.transport cause))
    (hwire : Exchange.Unanswered x.link cause (x.ended s).state) : x.Sound s := by
  have hend := orderly_ended h
  have hnone : ∀ v, .version (.ok v) ∉ (x.ended s).state.calls := by
    intro v hmem
    exact absurd (hwire.after.symm.trans (hend.mem_iff.1 hmem)) (by simp)
  have hsilent := stateCalls_eq_zero (hend.silent (hwire.after ▸ by simp))
  exact {
    atMostOne := ⟨[.version (.error cause)], hwire.calls, Nat.zero_le _⟩
    exactlyOne := fun hmem => absurd hmem (hnone _)
    refused := fun v hmem => absurd hmem (hnone v)
    unanswered := fun _ => ⟨cause, hresult, hwire.calls, hsilent⟩
    asks := fun _ => ⟨[], _, hwire.calls⟩ }

theorem Round.sound_of_refused {v : String} (h : x.link.Orderly s.options.expectedVersion)
    (hv : v ≠ s.options.expectedVersion)
    (hresult : (x.ended s).result = .error (.versionMismatch s.options.expectedVersion v))
    (hwire : Exchange.Learnt x.link v (x.ended s).state) : x.Sound s := by
  have hend := orderly_ended h
  have hknown : ∀ w, .version (.ok w) ∈ (x.ended s).state.calls → w = v := by
    intro w hmem
    exact Option.some.inj ((hend.mem_iff.1 hmem).symm.trans hwire.after)
  have hsilent := stateCalls_eq_zero (hend.silent (hwire.after ▸ by simpa using hv))
  obtain ⟨added, hcalls, hcount, hasked⟩ := hwire.exists_added
  exact {
    atMostOne := ⟨added, hcalls, by omega⟩
    exactlyOne := fun hmem => absurd (hknown _ hmem).symm hv
    refused := fun w hmem _ => ⟨hknown w hmem ▸ hresult, hsilent⟩
    unanswered := fun hnone => absurd (hend.mem_iff.2 hwire.after) (hnone v)
    asks := fun hmem => ⟨[], .ok v, by rw [hcalls, hasked (h.version_eq_none hmem)]; rfl⟩ }

theorem Round.sound_of_served {l' : Link σ} {time : Nat} {answer : Except String (List Entry)}
    (h : x.link.Orderly s.options.expectedVersion)
    (hwire : Exchange.Learnt x.link s.options.expectedVersion l')
    (hversion : (x.ended s).state.version = l'.version)
    (hcalls : (x.ended s).state.calls = .state time x.query.text answer :: l'.calls) :
    x.Sound s := by
  have hend := orderly_ended h
  have hafter := hversion.trans hwire.after
  have hknown : ∀ w, .version (.ok w) ∈ (x.ended s).state.calls →
      w = s.options.expectedVersion := by
    intro w hmem
    exact Option.some.inj ((hend.mem_iff.1 hmem).symm.trans hafter)
  obtain ⟨added, hadded, hcount, hasked⟩ := hwire.exists_added
  rw [hadded] at hcalls
  have hone : stateCalls (.state time x.query.text answer :: added) = 1 := by
    rw [stateCalls, List.countP_cons_of_pos rfl, ← stateCalls, hcount]
  exact {
    atMostOne := ⟨.state time x.query.text answer :: added, hcalls, Nat.le_of_eq hone⟩
    exactlyOne := fun _ => by
      rw [hcalls, ← List.cons_append, stateCalls, List.countP_append, ← stateCalls, ← stateCalls,
        hone, Nat.add_comm]
    refused := fun w hmem hw => absurd (hknown w hmem) hw
    unanswered := fun hnone => absurd (hend.mem_iff.2 hafter) (hnone _)
    asks := fun hmem => ⟨[.state time x.query.text answer], .ok s.options.expectedVersion, by
      rw [hcalls, hasked (h.version_eq_none hmem)]
      rfl⟩ }

/-- **Every round over a connection with orderly calls is sound.** -/
theorem Round.sound (h : x.link.Orderly s.options.expectedVersion) : x.Sound s := by
  rcases x.ended_cases s with
    ⟨cause, hresult, hwire⟩ | ⟨v, hv, hresult, hwire⟩ | ⟨l', time, answer, hwire, hversion, hcalls⟩
  · exact sound_of_unanswered h hresult hwire
  · exact sound_of_refused h hv hresult hwire
  · exact sound_of_served h hwire hversion hcalls

end Sound

/-! ## Operations -/

/-- Along a course of rounds the calls stay orderly, and every round is sound. -/
theorem Course.orderly {s : Session σ} {l l' : Link σ} {rounds : List (Round σ)}
    (h : Course s l rounds l') (hl : l.Orderly s.options.expectedVersion) :
    l'.Orderly s.options.expectedVersion ∧ ∀ x ∈ rounds, x.Sound s := by
  induction h with
  | quiet hquiet => exact ⟨hl.of_quiet hquiet, by simp⟩
  | round hquiet _ ih =>
    have hstart := hl.of_quiet hquiet
    obtain ⟨hend, hrest⟩ := ih (Round.orderly_ended hstart)
    refine ⟨hend, fun y hy => ?_⟩
    rcases List.mem_cons.1 hy with rfl | hy
    · exact Round.sound hstart
    · exact hrest y hy

/-- Calls, the latest first, by which the version comes first. -/
structure VersionFirst (expected : String) (calls : List Call) : Prop where
  /-- After an answered call for the version there is no other. -/
  once : ∀ later v earlier, calls = later ++ .version (.ok v) :: earlier →
    ∀ c ∈ later, c.isVersion = false
  /-- Before a call for objects the expected version was answered. -/
  before : ∀ later time query answer earlier,
    calls = later ++ .state time query answer :: earlier → .version (.ok expected) ∈ earlier
  /-- If another version was answered, there is no call for objects. -/
  silent : ∀ v, .version (.ok v) ∈ calls → v ≠ expected → ∀ c ∈ calls, c.isVersion = true

theorem Orderly.versionFirst {version : Option String} {calls : List Call}
    (h : Orderly expected version calls) : VersionFirst expected calls where
  once later v earlier heq := by
    rw [heq] at h
    exact h.once
  before later time query answer earlier heq := by
    rw [heq] at h
    exact h.before
  silent v hmem hv := by
    refine h.silent ?_
    rw [h.mem_iff.1 hmem]
    simpa using hv

/-- **The version comes first, whatever is done with a session.**  For every remote side, every
version that is expected and every sequence of operations on a session and its proxies, from a fresh
connection on: the operations are rounds of queries; the version is asked for until there is an
answer and never again, and no call for objects comes before the expected version; and every one of
these rounds is sound, as is any other from there on. -/
theorem versionFirst_of_runAll (s : Session σ) (ops : List Operation) (now : Nat) (remote : σ) :
    Course s (Link.start remote) (s.rounds ops now (Link.start remote))
        (s.runAll ops now (Link.start remote)).2 ∧
      VersionFirst s.options.expectedVersion (s.runAll ops now (Link.start remote)).2.calls ∧
      (∀ x ∈ s.rounds ops now (Link.start remote), x.Sound s) ∧
      ∀ q later, (Round.mk q later (s.runAll ops now (Link.start remote)).2).Sound s := by
  have hcourse := s.follows_runAll ops now (Link.start remote)
  have hstart : (Link.start remote).Orderly s.options.expectedVersion := .start
  obtain ⟨hend, hrounds⟩ := hcourse.orderly hstart
  exact ⟨hcourse, hend.versionFirst, hrounds, fun q later => Round.sound hend⟩

/-- A session with a remote side that cannot be reached at first. -/
def hesitant : Session Bool where
  remote := {
    version := fun _ up => ⟨if up then .ok "1.4" else .error "down", 0, true⟩
    state := fun _ _ up => ⟨.ok [], 0, up⟩ }
  registry := .empty
  options := .default

/-- Three times the root: the first time nobody answers, then the version is asked for again, and
the last time it is known. -/
theorem versionFirst_hesitant :
    (hesitant.runAll [.root, .pause 5, .root, .root] 0 (Link.start false)).2.calls =
        [.state 5 "/" (.ok []), .state 5 "/" (.ok []), .version (.ok "1.4"),
          .version (.error "down")] ∧
      VersionFirst "1.4" [.state 5 "/" (.ok []), .state 5 "/" (.ok []), .version (.ok "1.4"),
        .version (.error "down")] ∧
      (Round.mk .pseudoRoot 0 (Link.start false)).Sound hesitant := by
  obtain ⟨-, hfirst, hrounds, -⟩ :=
    versionFirst_of_runAll hesitant [.root, .pause 5, .root, .root] 0 false
  exact ⟨rfl, hfirst, hrounds _ List.mem_cons_self⟩

end Arbor
