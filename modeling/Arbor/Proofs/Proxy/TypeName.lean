/-
# Two names of a type

An object has the type name after the last slash of its path, and its query has a target, the last
component.  They are the same unless the path ends in a slash (`Proxy.typeName_of_bind`): such a
path can be bound, and its components are those without the slash, but the type name is empty.  Then
no class for the target claims the object, and the search for other objects of its type fails.
-/

import Arbor.Proofs.Query.Address
import Arbor.Proofs.Session.Binding
import Arbor.Proxy.Basic

namespace Arbor
namespace Query

theorem admissible_descendant_iff {name : String} :
    Admissible 0 (.descendant name .empty) ↔
      IsName name.toList ∧ name ≠ Segment.wildcard ∧ name ≠ Segment.parentName := by
  constructor
  · intro h
    exact ⟨h.name, fun hwild => h.wildcard (beq_iff_eq.2 hwild) rfl rfl,
      fun hparent => (h.parent (beq_iff_eq.2 hparent)).1 rfl⟩
  · rintro ⟨hname, hwild, hparent⟩
    exact {
      name := hname
      parent := fun h => absurd (eq_of_beq h) hparent
      wildcard := fun h => absurd (eq_of_beq h) hwild }

/-- One segment that is reached by two slashes, and is not the root. -/
theorem write_descendant_eq_ok_iff {name t : String} (h : name ≠ "") :
    write [.descendant name .empty] = .ok t ↔
      Admissible 0 (.descendant name .empty) ∧ t = "//" ++ name := by
  rw [write_eq_writeFrom h, writeFrom_cons_eq_ok_iff]
  simp only [writeSegment_eq_ok_iff (show writeList (.descendant name .empty) = .ok "" from rfl),
    String.append_empty]
  constructor
  · rintro ⟨first, others, ⟨hadmissible, rfl⟩, hothers, rfl⟩
    obtain rfl := Except.ok.inj hothers
    exact ⟨hadmissible, String.append_empty⟩
  · rintro ⟨hadmissible, rfl⟩
    exact ⟨_, "", ⟨hadmissible, rfl⟩, rfl, String.append_empty.symm⟩

/-- The search for a type in the whole tree, which is not the root, a wildcard or the parent. -/
theorem everywhere_empty_eq_ok_iff {name : String} {q : Query} :
    everywhere name .empty = .ok q ↔
      (IsName name.toList ∧ name ≠ Segment.wildcard ∧ name ≠ Segment.parentName) ∧
        q = ⟨[.descendant name .empty], "//" ++ name, .empty⟩ := by
  rw [← admissible_descendant_iff]
  by_cases hname : name = ""
  · subst hname
    exact iff_of_false (fun h => absurd (show Except.error _ = _ from h) (by simp))
      fun h => h.1.name.1 rfl
  · rw [everywhere, ← List.nil_append [_], ofSegments_append_eq_ok_iff]
    constructor
    · rintro ⟨-, t, ht, rfl⟩
      obtain ⟨h, rfl⟩ := (write_descendant_eq_ok_iff hname).1 ht
      exact ⟨h, rfl⟩
    · rintro ⟨h, rfl⟩
      exact ⟨by simp, _, (write_descendant_eq_ok_iff hname).2 ⟨h, rfl⟩, rfl⟩

/-- The target of an address is the last component. -/
theorem target_of_addresses {path : String} {id : Int64} {q : Query} (h : Addresses path id q) :
    (Path.components path).getLast? = some q.target := by
  obtain ⟨names, name, hcomponents, hsegments⟩ := h.segments
  rw [hcomponents, target, hsegments, List.getLast?_concat, List.getLast?_concat]
  rfl

end Query

namespace Proxy

open Arbor.Path (EndsInSlash)

/-- **What a bound object is called.**  The target of its query is the last component of its path.
It is the type name, and a class for it claims the object, exactly if the path does not end in a
slash.  Otherwise the type name is empty, and the search for all objects of the type fails before
anything is sent.  If the type name is the target, it can be looked for in the whole tree unless it
is the wildcard or the parent, and the search for all objects of the type selects just that. -/
theorem typeName_of_bind {registry : Registry} {n : Node} {p : Proxy}
    (h : Session.bind registry n = .ok p) :
    (Path.components n.path).getLast? = some p.query.target ∧
    (p.typeName = p.query.target ↔ ¬EndsInSlash n.path) ∧
    (∀ className, Registration.applies ⟨className, p.query.target, none⟩ n = true ↔
      ¬EndsInSlash n.path) ∧
    (EndsInSlash n.path → p.typeName = "" ∧
      ∀ (σ : Type) (s : Session σ) (now : Nat) (l : Link σ), p.allInstances s now l =
        ⟨.error (.invalidQuery Query.Fault.decoratedRoot.message), 0, l⟩) ∧
    (¬EndsInSlash n.path →
      (∀ q, Query.everywhere p.typeName .empty = .ok q ↔
        (p.typeName ≠ Segment.wildcard ∧ p.typeName ≠ Segment.parentName) ∧
          q = ⟨[.descendant p.typeName .empty], "//" ++ p.typeName, .empty⟩) ∧
      (p.typeName ≠ Segment.wildcard → p.typeName ≠ Segment.parentName →
        ∀ (σ : Type) (s : Session σ), p.allInstances s =
          s.selectMany ⟨[.descendant p.typeName .empty], "//" ++ p.typeName, .empty⟩)) := by
  obtain ⟨rfl, hquery⟩ := Session.of_bind_eq_ok h
  obtain ⟨hpath, haddress⟩ := Query.ofPath_eq_ok_iff.1 hquery
  have htarget := Query.target_of_addresses haddress
  have hslash : '/' ∈ p.node.path.toList := List.mem_of_head? hpath.slash
  have hempty : p.typeName = "" ↔ EndsInSlash p.node.path := Path.typeName_eq_empty_iff hslash
  have hagree : p.typeName = p.query.target ↔ ¬EndsInSlash p.node.path := by
    have hlast := Path.getLast?_components_eq_iff p.node.path
    rw [htarget, Option.some.injEq, eq_comm] at hlast
    exact hlast.trans (not_congr hempty)
  refine ⟨htarget, hagree, fun _ => beq_iff_eq.trans hagree, fun hends => ?_, fun hends => ?_⟩
  · have hname := hempty.2 hends
    refine ⟨hname, fun σ s now l => ?_⟩
    rw [allInstances, hname]
    rfl
  · have hname : Query.IsName p.typeName.toList := by
      rw [hagree.2 hends]
      exact hpath.names _ (List.mem_of_getLast? htarget)
    have hsearch : ∀ q, Query.everywhere p.typeName .empty = .ok q ↔
        (p.typeName ≠ Segment.wildcard ∧ p.typeName ≠ Segment.parentName) ∧
          q = ⟨[.descendant p.typeName .empty], "//" ++ p.typeName, .empty⟩ := by
      intro q
      rw [Query.everywhere_empty_eq_ok_iff, and_iff_right hname]
    refine ⟨hsearch, fun hwild hparent σ s => ?_⟩
    rw [allInstances, (hsearch _).2 ⟨⟨hwild, hparent⟩, rfl⟩]
    exact Action.ret_andThen _ _

/-- The application, listed under a path. -/
def appAt (path : String) : Node := ⟨path, 1, [], none, none⟩

/-- A proxy for the application, whatever it is listed under. -/
def appUnder (path : String) : Proxy :=
  ⟨appAt path, .generic, ⟨[.child "App" (.ofList [("id", .int 1)])], "/App[id=1]", .empty⟩⟩

/-- Listed with and without a slash at the end the application has the same query.  All other
applications are found from the second, and none from the first. -/
theorem typeName_slashedApp :
    (appUnder "/App/").typeName = "" ∧ (appUnder "/App/").query.target = "App" ∧
      (∀ (s : Session Unit) (l : Link Unit), (appUnder "/App/").allInstances s 0 l =
        ⟨.error (.invalidQuery Query.Fault.decoratedRoot.message), 0, l⟩) ∧
      (appUnder "/App").typeName = (appUnder "/App").query.target ∧
      ∀ s : Session Unit, (appUnder "/App").allInstances s =
        s.selectMany ⟨[.descendant "App" .empty], "//App", .empty⟩ := by
  have hslashed : Session.bind .empty (appAt "/App/") = .ok (appUnder "/App/") := rfl
  have hplain : Session.bind .empty (appAt "/App") = .ok (appUnder "/App") := rfl
  obtain ⟨-, -, -, hends, -⟩ := typeName_of_bind hslashed
  obtain ⟨-, hagree, -, -, hname⟩ := typeName_of_bind hplain
  obtain ⟨hempty, hfails⟩ := hends (by decide)
  obtain ⟨-, hfinds⟩ := hname (by decide)
  exact ⟨hempty, rfl, fun s l => hfails Unit s 0 l, hagree.2 (by decide),
    fun s => hfinds (by decide) (by decide) Unit s⟩

/-- **A bound object can have a type name that is not the target of its query**, and by which
nothing in the tree can be looked for. -/
theorem exists_typeName_ne_target :
    (¬∀ (registry : Registry) (n : Node) (p : Proxy), Session.bind registry n = .ok p →
      p.typeName = p.query.target) ∧
    ¬∀ (registry : Registry) (n : Node) (p : Proxy), Session.bind registry n = .ok p →
      p.typeName ≠ Segment.wildcard → p.typeName ≠ Segment.parentName →
        ∃ q, Query.everywhere p.typeName .empty = .ok q := by
  have hslashed : Session.bind .empty (appAt "/App/") = .ok (appUnder "/App/") := rfl
  constructor
  · intro hall
    exact absurd (hall _ _ _ hslashed) (by decide)
  · intro hall
    obtain ⟨q, hq⟩ := hall _ _ _ hslashed (by decide) (by decide)
    have hfault : Query.everywhere (appUnder "/App/").typeName .empty = .error .decoratedRoot := rfl
    exact absurd (hfault.symm.trans hq) (by simp)

end Proxy
end Arbor
