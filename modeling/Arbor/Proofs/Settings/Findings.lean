/-
# Findings and defaults

What is found in settings is found in their fields (`findings_eq`), so what completing does to
findings follows from what it does to a field:

| findings | after completing | because |
| --- | --- | --- |
| errors | the same | each comes from one field, and every default passes its check |
| warnings about one field | the same | likewise |
| about interval and timeout together | the same or one more | one of the two may be a default |

Errors are then the same in the same order, and warnings only come in between
(`errors_complete`, `warnings_sublist_complete`).  `prepare` loads, completes and checks; what it
ends with is decided by the errors of what was loaded, before anything was completed
(`prepare_ends`), whichever layer the text was read with.
-/

import Arbor.Proofs.Action
import Arbor.Proofs.Result
import Arbor.Proofs.Settings.Completion
import Arbor.Proofs.Settings.Document

namespace Arbor
namespace Settings

section

variable {α : Type} {x d : Option α} {f g : α → List Finding}

/-- A default about which there is nothing to say adds nothing. -/
theorem ifSet_or_of_default (h : ifSet d f = []) : ifSet (x.or d) f = ifSet x f := by
  cases x with
  | none => rw [Option.none_or, h, ifSet]
  | some a => rfl

/-- Whatever default is set, nothing is lost. -/
theorem ifSet_sublist_or : (ifSet x f).Sublist (ifSet (x.or d) f) := by
  cases x with
  | none => exact List.nil_sublist _
  | some a => exact List.Sublist.refl _

theorem ifSet_sublist (h : ∀ a, (f a).Sublist (g a)) : (ifSet x f).Sublist (ifSet x g) := by
  cases x with
  | none => exact List.Sublist.refl _
  | some a => exact h a

end

/-- **Findings come from the fields.** -/
theorem findings_eq (c : Settings) :
    c.findings =
      { errors :=
          ifSet (c.field? .version) versionErrors ++ ifSet (c.field? .interval) intervalErrors ++
            ifSet (c.field? .level) levelErrors
        warnings :=
          ifSet (c.field? .timeout) timeoutWarnings ++
            (ifSet (c.field? .interval) fun interval =>
              ifSet (c.field? .timeout) fun timeout => paceWarnings interval timeout) ++
            ifSet (c.field? .limit) limitWarnings } := by
  obtain ⟨protocol, polling, query, logging⟩ := c
  have hprotocol : (protocol.getD .empty).expectedVersion = protocol.bind (·.expectedVersion) := by
    cases protocol <;> rfl
  have hinterval : (polling.getD .empty).intervalMs = polling.bind (·.intervalMs) := by
    cases polling <;> rfl
  have htimeout : (polling.getD .empty).defaultTimeoutMs = polling.bind (·.defaultTimeoutMs) := by
    cases polling <;> rfl
  have hlimit : (query.getD .empty).largeResultWarning = query.bind (·.largeResultWarning) := by
    cases query <;> rfl
  have hlevel : (logging.getD .empty).level = logging.bind (·.level) := by
    cases logging <;> rfl
  simp only [findings, hprotocol, hinterval, htimeout, hlimit, hlevel, field?]

/-- Every default passes the check of its field. -/
theorem default_passes :
    ifSet (Field.default? .version) versionErrors = [] ∧
      ifSet (Field.default? .interval) intervalErrors = [] ∧
      ifSet (Field.default? .level) levelErrors = [] ∧
      ifSet (Field.default? .timeout) timeoutWarnings = [] ∧
      ifSet (Field.default? .limit) limitWarnings = [] := by
  decide +kernel

/-- **Defaults neither hide an error nor make one.** -/
theorem errors_complete (c : Settings) : c.complete.findings.errors = c.findings.errors := by
  obtain ⟨hversion, hinterval, hlevel, -, -⟩ := default_passes
  simp only [findings_eq, field?_complete, ifSet_or_of_default hversion,
    ifSet_or_of_default hinterval, ifSet_or_of_default hlevel]

/-- **Defaults hide no warning**, and leave the others in their order. -/
theorem warnings_sublist_complete (c : Settings) :
    c.findings.warnings.Sublist c.complete.findings.warnings := by
  obtain ⟨-, -, -, htimeout, hlimit⟩ := default_passes
  simp only [findings_eq, field?_complete, ifSet_or_of_default htimeout,
    ifSet_or_of_default hlimit]
  refine List.Sublist.append (List.Sublist.append_left ?_ _) (List.Sublist.refl _)
  -- the interval and the timeout, of which either may be a default
  exact (ifSet_sublist fun _ => ifSet_sublist_or).trans ifSet_sublist_or

/-! ## Prepared settings -/

/-- Notes end well. -/
theorem yields_note (e : Event) : Action.Yields (note e) () := Action.Yields.modify _

/-- How checked settings are handed out: not at all if there is an error, of which the first is
named. -/
def verdict (location : Location) (c : Settings) : Except FileFault Settings :=
  match c.findings.errors with
  | first :: _ => .error (.invalid location first)
  | [] => .ok c.complete

/-- **What `prepare` ends with**, once settings are loaded. -/
theorem prepare_ends {ν : Type} {layer : Layer ν} {root : String} {location : Location} {now : Nat}
    {d : Disk} {c : Settings} (h : (load layer root location now d).result = .ok c) :
    (prepare layer root location now d).result = verdict location c := by
  refine Action.result_bind_of_ends (g := verdict location) h fun loaded => ?_
  have hnotes (level : Level) (l : List Finding) :
      Action.Ends (l.forM fun f => note (findingEvent level f)) (.ok ()) :=
    Action.Yields.forM (fun f => yields_note _) l
  show Action.Ends _ (Except.ok () >>= fun _ => Except.ok () >>= fun _ => verdict location loaded)
  refine Action.Ends.bind (hnotes .warn _) fun _ => Action.Ends.bind (hnotes .error _) fun _ => ?_
  rw [errors_complete, verdict]
  cases loaded.findings.errors with
  | nil => exact Action.Ends.ret _
  | cons first rest => exact Action.Ends.fail _

/-- **Defaults and findings.**  Completing settings leaves their errors as they are, in the same
order, and among the warnings only adds some.  So settings that are loaded, with whatever layer, can
be prepared exactly if there is no error in them as they were loaded; what is prepared then are the
completed settings, in which there is no error either, and otherwise the first error is named. -/
theorem findings_of_complete (c : Settings) :
    c.complete.findings.errors = c.findings.errors ∧
      c.findings.warnings.Sublist c.complete.findings.warnings ∧
      ∀ (ν : Type) (layer : Layer ν) root location now d,
        (load layer root location now d).result = .ok c →
          ((∃ prepared, (prepare layer root location now d).result = .ok prepared) ↔
              c.findings.errors = []) ∧
            (c.findings.errors = [] →
              (prepare layer root location now d).result = .ok c.complete ∧
                c.complete.findings.isValid = true) ∧
            ∀ first rest, c.findings.errors = first :: rest →
              (prepare layer root location now d).result = .error (.invalid location first) := by
  refine ⟨errors_complete c, warnings_sublist_complete c, fun ν layer root location now d h => ?_⟩
  rw [prepare_ends h, verdict]
  cases herrors : c.findings.errors with
  | nil =>
    refine ⟨by simp, fun _ => ⟨rfl, ?_⟩, by simp⟩
    rw [Findings.isValid, errors_complete, herrors]
    rfl
  | cons first rest =>
    refine ⟨by simp, by simp, fun first' rest' h' => ?_⟩
    rw [(List.cons.inj h').1]

/-- An interval of 20 seconds draws no warning while no timeout is set and one warning once it is,
and an unknown level is an error before and after; the file cannot be prepared because of the
level. -/
theorem findings_of_loudPolling :
    let c : Settings := ⟨none, some ⟨some 20000, none⟩, none, some ⟨some "loud", none, none⟩⟩
    let text := "polling:\n  intervalMs: 20000\nlogging:\n  level: loud\n"
    let layer := Layer.ofText text c
    let d : Disk := ⟨FileTree.empty.set ["c.yaml"] (some (.file text)), []⟩
    c.findings.warnings = [] ∧ c.complete.findings.warnings.length = 1 ∧
      (load layer "" ["c.yaml"] 0 d).result = .ok c ∧
      ¬∃ prepared, (prepare layer "" ["c.yaml"] 0 d).result = .ok prepared := by
  intro c text layer d
  have hload : (load layer "" ["c.yaml"] 0 d).result = .ok c :=
    toOption_eq_some_iff.1 (by decide +kernel)
  refine ⟨by decide +kernel, by decide +kernel, hload, fun h => ?_⟩
  have herrors := ((findings_of_complete c).2.2 Json layer "" ["c.yaml"] 0 d hload).1.1 h
  exact absurd herrors (by decide +kernel)

end Settings
end Arbor
