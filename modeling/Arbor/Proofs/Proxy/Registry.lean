/-
# Registries and what they resolve

A registry comes from calls to register, one after another; a call that fails leaves it as it is
(`Registry.after`).  A call fails exactly if its class name was registered before, so no two
registrations have the same, and a class name denotes one registration (`Registry.get?_of_mem`).

| what claims a node | the node has |
| --- | --- |
| nothing | the generic class |
| one registration | its class (`Registry.Only`) |
| more | none, and all of them are named (`Registry.Rivals`) |

Each row says only which registrations there are, not in which order.  So when they come in another
order, a node has the same class, or none and the same names in another order.
-/

import Arbor.Proofs.Result
import Arbor.Proxy.Registry
import Mathlib.Data.List.Induction
import Mathlib.Data.List.Nodup

namespace Arbor
namespace Registry

/-- The class names of the registrations. -/
def classNames (registry : Registry) : List String := registry.toList.map Registration.className

variable {registry : Registry} {n : Node} {r : Registration}

theorem mem_classNames_iff {name : String} :
    name ∈ registry.classNames ↔ ∃ e ∈ registry.toList, e.className = name :=
  List.mem_map

/-! ## Calls -/

/-- The registry after calls one after another, from none on. -/
def after (calls : List Registration) : Registry :=
  calls.foldl (fun registry r => (registry.register r).toOption.getD registry) .empty

theorem after_concat (calls : List Registration) (r : Registration) :
    after (calls ++ [r]) = ((after calls).register r).toOption.getD (after calls) := by
  rw [after, List.foldl_concat]
  rfl

theorem get?_eq_none_iff {name : String} :
    registry.get? name = none ↔ name ∉ registry.classNames := by
  rw [get?, List.find?_eq_none, mem_classNames_iff]
  simp

theorem register_of_mem (h : r.className ∈ registry.classNames) :
    registry.register r = .error (.duplicateClass r.className) := by
  unfold register
  split
  · rfl
  · next hnone => exact absurd h (get?_eq_none_iff.1 hnone)

theorem register_of_not_mem (h : r.className ∉ registry.classNames) :
    registry.register r = .ok ⟨registry.toList ++ [r]⟩ := by
  rw [register, get?_eq_none_iff.2 h]

/-- **A call fails exactly if its class name is taken.** -/
theorem register_eq_error_iff {failure : Failure} :
    registry.register r = .error failure ↔
      failure = .duplicateClass r.className ∧ r.className ∈ registry.classNames := by
  by_cases h : r.className ∈ registry.classNames
  · rw [register_of_mem h, Except.error.injEq, eq_comm]
    exact (and_iff_left h).symm
  · rw [register_of_not_mem h]
    exact iff_of_false (by simp) fun hmem => h hmem.2

theorem after_concat_of_mem {calls : List Registration}
    (h : r.className ∈ (after calls).classNames) : after (calls ++ [r]) = after calls := by
  rw [after_concat, register_of_mem h]
  rfl

theorem after_concat_of_not_mem {calls : List Registration}
    (h : r.className ∉ (after calls).classNames) :
    after (calls ++ [r]) = ⟨(after calls).toList ++ [r]⟩ := by
  rw [after_concat, register_of_not_mem h]
  rfl

/-- **No class name is registered twice**, whatever the calls. -/
theorem nodup_classNames_after (calls : List Registration) : (after calls).classNames.Nodup := by
  induction calls using List.reverseRecOn with
  | nil => exact List.nodup_nil
  | append_singleton calls r ih =>
    by_cases h : r.className ∈ (after calls).classNames
    · rw [after_concat_of_mem h]
      exact ih
    · rw [after_concat_of_not_mem h, classNames, List.map_append]
      refine List.nodup_append.2 ⟨ih, List.nodup_singleton _, fun name hname other hother => ?_⟩
      rintro rfl
      exact h (List.mem_singleton.1 hother ▸ hname)

/-- Calls with distinct class names are all registered. -/
theorem toList_after_of_nodup {calls : List Registration}
    (h : (calls.map Registration.className).Nodup) : (after calls).toList = calls := by
  induction calls using List.reverseRecOn with
  | nil => rfl
  | append_singleton calls r ih =>
    rw [List.map_append, List.nodup_append] at h
    obtain ⟨hcalls, -, hdisjoint⟩ := h
    have hnew : r.className ∉ (after calls).classNames := by
      rw [classNames, ih hcalls]
      intro hmem
      exact hdisjoint _ hmem _ (List.mem_singleton.2 rfl) rfl
    rw [after_concat_of_not_mem hnew, ih hcalls]

/-- A class name denotes the registration that has it. -/
theorem get?_of_mem (hnodup : registry.classNames.Nodup) (hr : r ∈ registry.toList) :
    registry.get? r.className = some r := by
  have hsome : registry.get? r.className ≠ none := fun hnone =>
    get?_eq_none_iff.1 hnone (mem_classNames_iff.2 ⟨r, hr, rfl⟩)
  obtain ⟨e, he⟩ := Option.ne_none_iff_exists'.1 hsome
  have hfound : registry.toList.find? (fun c => c.className == r.className) = some e := he
  have hname := List.find?_some hfound
  rw [he, List.inj_on_of_nodup_map hnodup (List.mem_of_find?_eq_some hfound) hr (eq_of_beq hname)]

/-- **A class name denotes the first call that had it.**  Later ones leave no trace. -/
theorem get?_after (calls : List Registration) (name : String) :
    (after calls).get? name = calls.find? fun r => r.className == name := by
  induction calls using List.reverseRecOn with
  | nil => rfl
  | append_singleton calls r ih =>
    rw [List.find?_append, ← ih]
    by_cases h : r.className ∈ (after calls).classNames
    · rw [after_concat_of_mem h]
      cases hget : (after calls).get? name with
      | some e => rfl
      | none =>
        have hne : ¬(r.className == name) = true := fun heq =>
          get?_eq_none_iff.1 hget (eq_of_beq heq ▸ h)
        show none = [r].find? fun r => r.className == name
        rw [List.find?_cons_of_neg (p := fun r : Registration => r.className == name) hne,
          List.find?_nil]
    · rw [after_concat_of_not_mem h]
      exact List.find?_append

/-! ## Who claims a node -/

/-- A registration claims a node, and no other one does. -/
structure Only (registry : Registry) (n : Node) (r : Registration) : Prop where
  mem : r ∈ registry.toList
  applies : r.applies n = true
  eq : ∀ e ∈ registry.toList, e.applies n = true → e = r

/-- Two classes claim a node. -/
def Rivals (registry : Registry) (n : Node) : Prop :=
  ∃ r ∈ registry.toList, ∃ e ∈ registry.toList, r.className ≠ e.className ∧
    r.applies n = true ∧ e.applies n = true

/-- The class names of the registrations that claim a node, in their order. -/
def claimants (registry : Registry) (n : Node) : List String :=
  (registry.toList.filter fun r => r.applies n).map Registration.className

theorem resolve_of_none (h : ∀ r ∈ registry.toList, r.applies n = false) :
    registry.resolve n = .ok .generic := by
  have hnone : (registry.toList.filter fun r => r.applies n) = [] :=
    List.filter_eq_nil_iff.2 fun r hr => by simp [h r hr]
  rw [resolve, hnone]

theorem resolve_of_only (hnodup : registry.classNames.Nodup) (h : Only registry n r) :
    registry.resolve n = .ok (.custom r.className) := by
  have hcandidates := (List.Nodup.of_map _ hnodup).filter fun e => e.applies n
  have hone : (registry.toList.filter fun e => e.applies n).Perm [r] := by
    refine (List.perm_ext_iff_of_nodup hcandidates (List.nodup_singleton r)).2 fun e => ?_
    rw [List.mem_filter, List.mem_singleton]
    constructor
    · exact fun he => h.eq e he.1 he.2
    · rintro rfl
      exact ⟨h.mem, h.applies⟩
  rw [resolve, List.perm_singleton.1 hone]

theorem resolve_of_rivals (h : Rivals registry n) :
    registry.resolve n = .error (.ambiguousClass n.path (registry.claimants n)) := by
  obtain ⟨r, hr, e, he, hne, hrn, hen⟩ := h
  have hr : r ∈ registry.toList.filter fun c => c.applies n := List.mem_filter.2 ⟨hr, hrn⟩
  have he : e ∈ registry.toList.filter fun c => c.applies n := List.mem_filter.2 ⟨he, hen⟩
  unfold resolve
  split
  · next hnone => exact absurd (hnone ▸ hr) List.not_mem_nil
  · next c hone =>
    rw [hone, List.mem_singleton] at hr he
    exact absurd (congrArg Registration.className (hr.trans he.symm)) hne
  · rfl

/-- A node is claimed by none, by one, or by two classes, and resolves accordingly. -/
theorem resolve_cases (hnodup : registry.classNames.Nodup) (n : Node) :
    (registry.resolve n = .ok .generic ∧ ∀ r ∈ registry.toList, r.applies n = false) ∨
    (∃ r, registry.resolve n = .ok (.custom r.className) ∧ Only registry n r) ∨
    registry.resolve n = .error (.ambiguousClass n.path (registry.claimants n)) ∧
      Rivals registry n := by
  by_cases hsome : ∃ r ∈ registry.toList, r.applies n = true
  · obtain ⟨r, hr, hrn⟩ := hsome
    by_cases hall : ∀ e ∈ registry.toList, e.applies n = true → e = r
    · have honly : Only registry n r := ⟨hr, hrn, hall⟩
      exact Or.inr (Or.inl ⟨r, resolve_of_only hnodup honly, honly⟩)
    · push Not at hall
      obtain ⟨e, he, hen, hne⟩ := hall
      have hname : r.className ≠ e.className := fun hname =>
        hne (List.inj_on_of_nodup_map hnodup he hr hname.symm)
      have hrivals : Rivals registry n := ⟨r, hr, e, he, hname, hrn, hen⟩
      exact Or.inr (Or.inr ⟨resolve_of_rivals hrivals, hrivals⟩)
  · push Not at hsome
    have hnone : ∀ r ∈ registry.toList, r.applies n = false := fun r hr =>
      Bool.eq_false_iff.2 (hsome r hr)
    exact Or.inl ⟨resolve_of_none hnone, hnone⟩

/-- What a node resolves to, by the registrations that claim it. -/
structure Resolution (registry : Registry) (n : Node) : Prop where
  generic : registry.resolve n = .ok .generic ↔ ∀ r ∈ registry.toList, r.applies n = false
  custom : ∀ name, registry.resolve n = .ok (.custom name) ↔
    ∃ r, Only registry n r ∧ r.className = name
  /-- The class denotes the registration that claims the node. -/
  denotes : ∀ r, Only registry n r → registry.get? r.className = some r
  ambiguous : ∀ failure, registry.resolve n = .error failure ↔
    Rivals registry n ∧ failure = .ambiguousClass n.path (registry.claimants n)

/-- **The claims on a node decide.**  The three cases have different results, so a result tells the
case. -/
theorem resolution_of_nodup (hnodup : registry.classNames.Nodup) (n : Node) :
    Resolution registry n := by
  have hcases := resolve_cases hnodup n
  refine ⟨⟨fun h => ?_, resolve_of_none⟩, fun name => ⟨fun h => ?_, ?_⟩,
    fun r h => get?_of_mem hnodup h.mem, fun failure => ⟨fun h => ?_, ?_⟩⟩
  · rw [h] at hcases
    simpa using hcases
  · rw [h] at hcases
    obtain ⟨r, hr, honly⟩ := (hcases.resolve_left (by simp)).resolve_right (by simp)
    exact ⟨r, honly, (ProxyClass.custom.inj (Except.ok.inj hr)).symm⟩
  · rintro ⟨r, honly, rfl⟩
    exact resolve_of_only hnodup honly
  · rw [h] at hcases
    obtain ⟨hfailure, hrivals⟩ := (hcases.resolve_left (by simp)).resolve_left (by simp)
    exact ⟨hrivals, Except.error.inj hfailure⟩
  · rintro ⟨hrivals, rfl⟩
    exact resolve_of_rivals hrivals

/-! ## Other orders -/

section Reordered

variable {other : Registry}

theorem perm_claimants (h : other.toList.Perm registry.toList) (n : Node) :
    (other.claimants n).Perm (registry.claimants n) :=
  (h.filter _).map _

theorem Only.of_perm (h : Only registry n r) (hperm : other.toList.Perm registry.toList) :
    Only other n r :=
  ⟨hperm.mem_iff.2 h.mem, h.applies, fun e he => h.eq e (hperm.mem_iff.1 he)⟩

theorem Rivals.of_perm (h : Rivals registry n) (hperm : other.toList.Perm registry.toList) :
    Rivals other n := by
  obtain ⟨r, hr, e, he, hclaims⟩ := h
  exact ⟨r, hperm.mem_iff.2 hr, e, hperm.mem_iff.2 he, hclaims⟩

theorem nodup_classNames_of_perm (h : other.toList.Perm registry.toList)
    (hnodup : registry.classNames.Nodup) : other.classNames.Nodup :=
  (h.map _).nodup_iff.2 hnodup

/-- **The order of registrations does not matter**, but for the order in which rivals are named. -/
theorem resolve_of_perm (hnodup : registry.classNames.Nodup)
    (h : other.toList.Perm registry.toList) (n : Node) :
    (∃ c, registry.resolve n = .ok c ∧ other.resolve n = .ok c) ∨
      ∃ names names', registry.resolve n = .error (.ambiguousClass n.path names) ∧
        other.resolve n = .error (.ambiguousClass n.path names') ∧ names'.Perm names := by
  have hnodup' := nodup_classNames_of_perm h hnodup
  rcases resolve_cases hnodup n with ⟨hresolve, hnone⟩ | ⟨r, hresolve, honly⟩ | ⟨hresolve, hrivals⟩
  · exact Or.inl ⟨_, hresolve, resolve_of_none fun r hr => hnone r (h.mem_iff.1 hr)⟩
  · exact Or.inl ⟨_, hresolve, resolve_of_only hnodup' (honly.of_perm h)⟩
  · exact Or.inr ⟨_, _, hresolve, resolve_of_rivals (hrivals.of_perm h), perm_claimants h n⟩

end Reordered

/-- **A registry and what it resolves**, after any calls to register.  Class names stay distinct.  A
call fails exactly if its class name is registered; then the registry stays as it is, and otherwise
it has one more registration.  So a class name denotes the first call that had it.  A node has the
generic class if nothing claims it, the class of the only registration that does, and no class if
there are two of them.  The same registrations in another order are all registered, and a node has
the same class or the same rivals. -/
theorem resolves_after (calls : List Registration) :
    (after calls).classNames.Nodup ∧
    (∀ r : Registration,
      (∀ failure, (after calls).register r = .error failure ↔
        failure = .duplicateClass r.className ∧ r.className ∈ (after calls).classNames) ∧
      (r.className ∈ (after calls).classNames → after (calls ++ [r]) = after calls) ∧
      (r.className ∉ (after calls).classNames →
        after (calls ++ [r]) = ⟨(after calls).toList ++ [r]⟩)) ∧
    (∀ name, (after calls).get? name = calls.find? fun r => r.className == name) ∧
    (∀ n, Resolution (after calls) n) ∧
    ∀ reordered : List Registration, reordered.Perm (after calls).toList →
      (after reordered).toList = reordered ∧
      ∀ n, (∃ c, (after calls).resolve n = .ok c ∧ (after reordered).resolve n = .ok c) ∨
        ∃ names names', (after calls).resolve n = .error (.ambiguousClass n.path names) ∧
          (after reordered).resolve n = .error (.ambiguousClass n.path names') ∧
          names'.Perm names := by
  have hnodup := nodup_classNames_after calls
  refine ⟨hnodup, fun r => ⟨fun failure => register_eq_error_iff, after_concat_of_mem,
    after_concat_of_not_mem⟩, get?_after calls, resolution_of_nodup hnodup,
    fun reordered hperm => ?_⟩
  have hkept : (after reordered).toList = reordered :=
    toList_after_of_nodup ((hperm.map _).nodup_iff.2 hnodup)
  exact ⟨hkept, resolve_of_perm hnodup (hkept.symm ▸ hperm)⟩

/-- Buttons with a certain name, whatever their type and place. -/
def okButton : Registration :=
  ⟨"OkButton", "Button", some (Matcher.equals "objectName" (.plain (.text "ok")))⟩

/-- Whatever is in a panel. -/
def panelChild : Registration := ⟨"PanelChild", "*", some (Matcher.pathBegins "/App/Panel/")⟩

/-- The button with that name at a place. -/
def okAt (path : String) : Node :=
  ⟨path, 3, [("objectName", .plain (.text "ok"))], none, none⟩

/-- The name of the first class cannot be given to another.  Outside of a panel the button has this
class.  In a panel it has two rivals, and they are the same if they are registered the other way
round. -/
theorem resolves_okButton :
    (after [okButton, panelChild]).register ⟨"OkButton", "Label", none⟩ =
        .error (.duplicateClass "OkButton") ∧
      after [okButton, panelChild, ⟨"OkButton", "Label", none⟩] = after [okButton, panelChild] ∧
      (after [okButton, panelChild]).resolve (okAt "/App/Button") = .ok (.custom "OkButton") ∧
      ∃ names, (after [panelChild, okButton]).resolve (okAt "/App/Panel/Button") =
          .error (.ambiguousClass "/App/Panel/Button" names) ∧
        names.Perm ["OkButton", "PanelChild"] := by
  obtain ⟨-, hcall, -, hresolution, hreordered⟩ := resolves_after [okButton, panelChild]
  have hmem : "OkButton" ∈ (after [okButton, panelChild]).classNames := by decide
  obtain ⟨hfails, hstays, -⟩ := hcall ⟨"OkButton", "Label", none⟩
  refine ⟨(hfails _).2 ⟨rfl, hmem⟩, hstays hmem, ?_, ?_⟩
  · refine ((hresolution (okAt "/App/Button")).custom _).2 ⟨okButton, ⟨?_, ?_, ?_⟩, rfl⟩
    · exact List.mem_cons_self
    · decide
    · intro e he happlies
      rcases List.mem_pair.1 he with rfl | rfl
      · rfl
      · exact absurd happlies (by decide)
  · have hrivals : (after [okButton, panelChild]).resolve (okAt "/App/Panel/Button") =
        .error (.ambiguousClass "/App/Panel/Button" ["OkButton", "PanelChild"]) := rfl
    rcases (hreordered [panelChild, okButton] (.swap _ _ [])).2 (okAt "/App/Panel/Button") with
      ⟨c, hc, -⟩ | ⟨names, names', h, h', hperm⟩
    · exact absurd (hrivals.symm.trans hc) (by simp)
    · obtain ⟨-, rfl⟩ := Failure.ambiguousClass.inj (Except.error.inj (hrivals.symm.trans h))
      exact ⟨names', h', hperm⟩

end Registry
end Arbor
