/-
# Proxies that a session holds

A session makes proxies of the nodes that its queries find, and holds them from then on, whatever it
does next (`Session.Holds`).  So a proxy that is held is bound to a node, and over the connection
the expected version is known: it was when the node was found, and no round of queries loses it
(`Course.version_eq`).
-/

import Arbor.Proofs.Query.Grammar
import Arbor.Proofs.Session.Outcome
import Arbor.Proofs.Session.VersionFirst

namespace Arbor

open Arbor.Action

variable {σ : Type} {s : Session σ}

/-! ## The version stays -/

/-- A query that finds nodes finds them with the expected version. -/
theorem Exchange.version_of_execute {r : Remote σ} {o : Options} {q : Query} {now : Nat}
    {l : Link σ} {nodes : List Node} (h : (execute r o q now l).result = .ok nodes) :
    (execute r o q now l).state.version = some o.expectedVersion := by
  rcases execute_cases r o q now l with
    ⟨cause, hresult, -⟩ | ⟨v, -, hresult, -⟩ | ⟨l', time, answer, hlearnt, hversion, -⟩
  · exact absurd (h.symm.trans hresult) (by simp)
  · exact absurd (h.symm.trans hresult) (by simp)
  · rw [hversion, hlearnt.after]

theorem Round.version_ended {x : Round σ} (h : x.link.version = some s.options.expectedVersion) :
    (x.ended s).state.version = some s.options.expectedVersion := by
  rcases x.ended_cases s with
    ⟨cause, -, hwire⟩ | ⟨v, hv, -, hlearnt⟩ | ⟨l', time, answer, hlearnt, hversion, -⟩
  · exact absurd (h.symm.trans hwire.before) (by simp)
  · -- another version cannot be learnt where one is known
    rcases hlearnt.calls with ⟨hknown, -⟩ | ⟨hnone, -⟩
    · exact absurd (Option.some.inj (hknown.symm.trans h)) hv
    · exact absurd (h.symm.trans hnone) (by simp)
  · rw [hversion, hlearnt.after]

/-- **The expected version, once known, stays known.** -/
theorem Course.version_eq {l l' : Link σ} {rounds : List (Round σ)} (h : Course s l rounds l')
    (hversion : l.version = some s.options.expectedVersion) :
    l'.version = some s.options.expectedVersion := by
  induction h with
  | quiet hquiet => exact hquiet.version.trans hversion
  | round hquiet _ ih => exact ih (Round.version_ended (hquiet.version.trans hversion))

/-! ## Proxies -/

namespace Session

/-- The proxies that a session holds over a connection. -/
inductive Holds (s : Session σ) : Link σ → Proxy → Prop
  /-- Those it binds the nodes to that a query found. -/
  | bound {q : Query} {now : Nat} {l : Link σ} {nodes : List Node} {n : Node} {p : Proxy} :
      (s.execute q now l).result = .ok nodes → n ∈ nodes → bind s.registry n = .ok p →
      Holds s (s.execute q now l).state p
  /-- They are held whatever is done next. -/
  | later {l l' : Link σ} {rounds : List (Round σ)} {p : Proxy} : Holds s l p →
      Course s l rounds l' → Holds s l' p

namespace Holds

variable {l : Link σ} {p : Proxy}

theorem exists_bind (h : s.Holds l p) : ∃ n, bind s.registry n = .ok p := by
  induction h with
  | bound _ _ hbind => exact ⟨_, hbind⟩
  | later _ _ ih => exact ih

/-- What is held was found over a connection with the expected version. -/
theorem version (h : s.Holds l p) : l.version = some s.options.expectedVersion := by
  induction h with
  | @bound q now l nodes n p hfound _ _ =>
    rw [result_execute] at hfound
    exact (s.quiet_execute q now l).version.trans (Exchange.version_of_execute hfound)
  | later _ hcourse ih => exact hcourse.version_eq ih

/-- So there is no handshake to be made. -/
theorem handshake (h : s.Holds l p) (now : Nat) :
    Exchange.handshake s.remote s.options now l = ⟨.ok (), 0, l⟩ :=
  Exchange.handshake_of_version h.version now

end Holds

/-- The one object that is selected is held. -/
theorem holds_of_selectSingle {q : Query} {now : Nat} {l : Link σ} {p : Proxy}
    (h : (s.selectSingle q now l).result = .ok p) :
    s.Holds (s.selectSingle q now l).state p := by
  rw [result_selectSingle_eq] at h
  obtain ⟨nodes, hfound, hone⟩ := bind_eq_ok_iff.1 h
  obtain ⟨n, rfl, hbinds⟩ := one?_eq_ok_iff.1 hone
  exact .later (.bound hfound List.mem_cons_self (bind_eq_ok_iff_binds.2 hbinds))
    (.quiet (Quietly.after (fun _ => .ofExcept _) now l))

end Session
end Arbor
