import Kata.Agent.Storage
import Kata.Lib.Lists
import Kata.Lib.Runs

/-!
# Kata.Agent.StorageCount

Whether the reference count of a storage is the number of its users, in every interleaving of
`add_storages` calls with users that release a storage.

`update_sandbox_storage` puts a state with a count of 1 in the place of the old one. Every user that
came in the meantime is forgotten (`late_user_forgotten`), and the device is cleaned up under the
user that remains. If there was none at each update, and no count is at its maximum when one more
user comes, then the count is right in every state and a device is cleaned up when nobody is left
(`refCount_correct`).
-/

namespace Kata.Agent

/-! ## The sandbox -/

namespace Sandbox

structure WF (sb : Sandbox) : Prop where
  handedOut : ∀ {p st}, sb.storages p = some st → st.count < sb.fresh
  own : ∀ {p q st st'}, sb.storages p = some st → sb.storages q = some st' → st.count = st'.count → p = q
  positive : ∀ {p st}, sb.storages p = some st → sb.counts st.count ≠ 0

variable {sb : Sandbox} {path : String}

theorem refCount_none (h : sb.storages path = none) : sb.refCount path = 0 := by
  rw [refCount, h]

theorem refCount_some {st : StorageState} (h : sb.storages path = some st) :
    sb.refCount path = (sb.counts st.count).toNat := by
  rw [refCount, h]

theorem exists_of_refCount_pos (h : 0 < sb.refCount path) : ∃ st, sb.storages path = some st := by
  cases hst : sb.storages path with
  | none =>
    rw [refCount_none hst] at h
    exact absurd h (Nat.lt_irrefl 0)
  | some st => exact ⟨st, rfl⟩

/-! ### One counter changes -/

section SetCount

variable {st : StorageState} {v : UInt32}

def setCount (sb : Sandbox) (i : Nat) (v : UInt32) : Sandbox := { sb with counts := Function.update sb.counts i v }

theorem setCount_counts_self (i : Nat) : (sb.setCount i v).counts i = v := Function.update_self ..

theorem setCount_counts_of_ne {i j : Nat} (h : j ≠ i) : (sb.setCount i v).counts j = sb.counts j :=
  Function.update_of_ne h ..

theorem setCount_refCount_of_ne {i : Nat} {q : String} (h : ∀ st', sb.storages q = some st' → st'.count ≠ i) :
    (sb.setCount i v).refCount q = sb.refCount q := by
  have hsame : (sb.setCount i v).storages q = sb.storages q := rfl
  cases hst : sb.storages q with
  | none => rw [refCount_none hst, refCount_none (hsame.trans hst)]
  | some st' => rw [refCount_some hst, refCount_some (hsame.trans hst), setCount_counts_of_ne (h st' hst)]

theorem setCount_refCount (hwf : sb.WF) (h : sb.storages path = some st) (q : String) :
    (sb.setCount st.count v).refCount q = if q = path then v.toNat else sb.refCount q := by
  by_cases hq : q = path
  · subst hq
    have hst : (sb.setCount st.count v).storages q = some st := h
    rw [if_pos rfl, refCount_some hst, setCount_counts_self]
  · rw [if_neg hq]
    exact setCount_refCount_of_ne fun st' hst heq => hq (hwf.own hst h heq)

theorem WF.setCount {i : Nat} (hwf : sb.WF) (hv : ∀ {q st'}, sb.storages q = some st' → st'.count = i → v ≠ 0) :
    (sb.setCount i v).WF where
  handedOut := hwf.handedOut
  own := hwf.own
  positive {q st'} hst := by
    by_cases heq : st'.count = i
    · rw [heq, setCount_counts_self]
      exact hv hst heq
    · rw [setCount_counts_of_ne heq]
      exact hwf.positive hst

end SetCount

/-! ### A path is taken out -/

def erase (sb : Sandbox) (path : String) : Sandbox :=
  { sb with storages := Function.update sb.storages path none }

theorem erase_storages (q : String) : (sb.erase path).storages q = if q = path then none else sb.storages q := by
  by_cases hq : q = path
  · rw [if_pos hq, hq]
    exact Function.update_self ..
  · rw [if_neg hq]
    exact Function.update_of_ne hq ..

theorem of_erase_storages {q : String} {st : StorageState} (h : (sb.erase path).storages q = some st) :
    q ≠ path ∧ sb.storages q = some st := by
  rw [erase_storages] at h
  split at h
  · cases h
  · exact ⟨‹_›, h⟩

theorem erase_refCount (q : String) : (sb.erase path).refCount q = if q = path then 0 else sb.refCount q := by
  rw [refCount, erase_storages]
  by_cases hq : q = path
  · rw [if_pos hq, if_pos hq]
  · rw [if_neg hq, if_neg hq]
    rfl

theorem WF.erase (hwf : sb.WF) : (sb.erase path).WF where
  handedOut h := hwf.handedOut (of_erase_storages h).2
  own h h' := hwf.own (of_erase_storages h).2 (of_erase_storages h').2
  positive h := hwf.positive (of_erase_storages h).2

/-! ### The three operations -/

theorem install_storages (q : String) (device : StorageDevice) :
    (sb.install path device).2.storages q = if q = path then some ⟨sb.fresh, device⟩ else sb.storages q := by
  by_cases hq : q = path
  · rw [if_pos hq, hq]
    exact Function.update_self ..
  · rw [if_neg hq]
    exact Function.update_of_ne hq ..

theorem install_refCount (hwf : sb.WF) (device : StorageDevice) (q : String) :
    (sb.install path device).2.refCount q = if q = path then 1 else sb.refCount q := by
  have hst : (sb.install path device).2.storages q = _ := install_storages q device
  by_cases hq : q = path
  · rw [if_pos hq] at hst ⊢
    rw [refCount_some hst]
    show (Function.update sb.counts sb.fresh 1 sb.fresh).toNat = 1
    rw [Function.update_self]
    rfl
  · rw [if_neg hq] at hst ⊢
    cases hold : sb.storages q with
    | none =>
      rw [hold] at hst
      rw [refCount_none hst, refCount_none hold]
    | some st =>
      rw [hold] at hst
      have hne : st.count ≠ sb.fresh := Nat.ne_of_lt (hwf.handedOut hold)
      rw [refCount_some hst, refCount_some hold]
      show (Function.update sb.counts sb.fresh 1 st.count).toNat = _
      rw [Function.update_of_ne hne]

theorem WF.install (hwf : sb.WF) (device : StorageDevice) : (sb.install path device).2.WF where
  handedOut {q st} h := by
    rw [install_storages] at h
    split at h
    · cases h
      exact Nat.lt_succ_self _
    · exact Nat.lt_succ_of_lt (hwf.handedOut h)
  own {q r st st'} h h' heq := by
    rw [install_storages] at h h'
    split at h
    · rename_i hq
      cases h
      split at h'
      · rename_i hr
        rw [hq, hr]
      · exact absurd heq.symm (Nat.ne_of_lt (hwf.handedOut h'))
    · split at h'
      · cases h'
        exact absurd heq (Nat.ne_of_lt (hwf.handedOut h))
      · exact hwf.own h h' heq
  positive {q st} h := by
    show Function.update sb.counts sb.fresh 1 st.count ≠ 0
    rw [install_storages] at h
    split at h
    · cases h
      rw [Function.update_self]
      decide
    · rw [Function.update_of_ne (Nat.ne_of_lt (hwf.handedOut h))]
      exact hwf.positive h

theorem addSandboxStorage_spec (hwf : sb.WF) (hmax : sb.refCount path < 2 ^ 32 - 1) :
    (sb.addSandboxStorage path).2.WF ∧
      ∀ q, (sb.addSandboxStorage path).2.refCount q = sb.refCount q + if q = path then 1 else 0 := by
  cases hst : sb.storages path with
  | none =>
    have hadd : sb.addSandboxStorage path = sb.install path {} := by
      rw [addSandboxStorage, hst]
    rw [hadd]
    refine ⟨hwf.install {}, fun q => ?_⟩
    rw [install_refCount hwf]
    by_cases hq : q = path
    · rw [if_pos hq, if_pos hq, hq, refCount_none hst]
    · rw [if_neg hq, if_neg hq]
      rfl
  | some st =>
    have hadd : (sb.addSandboxStorage path).2 = sb.setCount st.count (sb.counts st.count + 1) := by
      rw [addSandboxStorage, hst]
      rfl
    have hcount := refCount_some hst
    have hnat : (sb.counts st.count + 1).toNat = (sb.counts st.count).toNat + 1 := by
      rw [UInt32.toNat_add, UInt32.toNat_one]
      exact Nat.mod_eq_of_lt (by omega)
    rw [hadd]
    refine ⟨hwf.setCount fun _ _ h0 => ?_, fun q => ?_⟩
    · rw [h0] at hnat
      exact absurd hnat (Nat.succ_ne_zero _).symm
    · rw [setCount_refCount hwf hst]
      by_cases hq : q = path
      · rw [if_pos hq, if_pos hq, hq, hnat, hcount]
      · rw [if_neg hq, if_neg hq]
        rfl

theorem updateSandboxStorage_spec (hwf : sb.WF) (hone : sb.refCount path = 1) (device : StorageDevice) :
    ∃ old sb', sb.updateSandboxStorage path device = (.ok old, sb') ∧ sb'.WF ∧ ∀ q,
      sb'.refCount q = sb.refCount q := by
  obtain ⟨st, hst⟩ := exists_of_refCount_pos (hone ▸ Nat.one_pos)
  refine ⟨st.device, (sb.install path device).2, ?_, hwf.install device, fun q => ?_⟩
  · rw [updateSandboxStorage, hst]
  · rw [install_refCount hwf]
    by_cases hq : q = path
    · rw [if_pos hq, hq, hone]
    · rw [if_neg hq]

variable (cleanup : StorageDevice → Except String Unit)

theorem removeSandboxStorage_last {st : StorageState} (hst : sb.storages path = some st)
    (hone : sb.counts st.count = 1) :
    (sb.removeSandboxStorage cleanup path).sandbox = (sb.erase path).setCount st.count 0 := by
  rw [removeSandboxStorage, hst]
  simp only [if_pos hone]
  rw [hone]
  rfl

theorem removeSandboxStorage_other {st : StorageState} (hst : sb.storages path = some st)
    (hone : sb.counts st.count ≠ 1) :
    sb.removeSandboxStorage cleanup path =
      { result := .ok false, cleaned := none, sandbox := sb.setCount st.count (sb.counts st.count - 1) } := by
  rw [removeSandboxStorage, hst]
  simp only [if_neg hone]
  rfl

theorem removeSandboxStorage_spec (hwf : sb.WF) (hpos : 0 < sb.refCount path) :
    (sb.removeSandboxStorage cleanup path).sandbox.WF ∧
      (∀ q, (sb.removeSandboxStorage cleanup path).sandbox.refCount q = sb.refCount q - if q = path then 1 else 0) ∧
      ((sb.removeSandboxStorage cleanup path).cleaned.isSome → sb.refCount path = 1) := by
  obtain ⟨st, hst⟩ := exists_of_refCount_pos hpos
  have hcount := refCount_some hst
  by_cases hone : sb.counts st.count = 1
  · have hrc : sb.refCount path = 1 := by
      rw [hcount, hone]
      rfl
    have hfree : ∀ {q st'}, (sb.erase path).storages q = some st' → st'.count ≠ st.count := fun h heq =>
      (of_erase_storages h).1 (hwf.own (of_erase_storages h).2 hst heq)
    rw [removeSandboxStorage_last cleanup hst hone]
    refine ⟨hwf.erase.setCount fun h heq => absurd heq (hfree h), fun q => ?_, fun _ => hrc⟩
    rw [setCount_refCount_of_ne fun _ h => hfree h, erase_refCount]
    by_cases hq : q = path
    · rw [if_pos hq, if_pos hq, hq, hrc]
    · rw [if_neg hq, if_neg hq]
      rfl
  · have hnat : (sb.counts st.count - 1).toNat = (sb.counts st.count).toNat - 1 := by
      refine UInt32.toNat_sub_of_le _ _ ?_
      rw [UInt32.le_iff_toNat_le, ← hcount]
      exact hpos
    rw [removeSandboxStorage_other cleanup hst hone]
    refine ⟨hwf.setCount fun _ _ h0 => ?_, fun q => ?_, fun h => nomatch h⟩
    · have hle : (sb.counts st.count).toNat - 1 = 0 := by
        rw [← hnat, h0]
        rfl
      exact hone (UInt32.toNat_inj.mp (by rw [UInt32.toNat_one]; omega))
    · rw [setCount_refCount hwf hst]
      by_cases hq : q = path
      · rw [if_pos hq, if_pos hq, hq, hnat, hcount]
      · rw [if_neg hq, if_neg hq]
        rfl

end Sandbox

/-! ## The account -/

open Lib

namespace State

variable {s : State} {path : String} {cleanup : StorageDevice → Except String Unit}

/-- The counts are those of the account, and each cleanup has found nobody left. -/
structure Counted (s : State) : Prop where
  wf : s.sandbox.WF
  counted : ∀ p, s.adds p = s.removes p + s.sandbox.refCount p
  clean : ∀ e ∈ s.cleanups, e.2 = 0

theorem remove_adds : (s.remove cleanup path).adds = s.adds := by
  unfold remove
  dsimp only
  split <;> rfl

theorem remove_removes (p : String) :
    (s.remove cleanup path).removes p = s.removes p + if p = path then 1 else 0 := by
  have h : (s.remove cleanup path).removes = Function.update s.removes path (s.removes path + 1) := by
    unfold remove
    dsimp only
    split <;> rfl
  rw [h, Function.update_apply]
  by_cases hp : p = path
  · rw [if_pos hp, if_pos hp, hp]
  · rw [if_neg hp, if_neg hp]
    rfl

theorem remove_users : (s.remove cleanup path).users = s.users := by
  unfold remove
  dsimp only
  split <;> rfl

theorem remove_calls : (s.remove cleanup path).calls = s.calls := by
  unfold remove
  dsimp only
  split <;> rfl

theorem remove_sandbox : (s.remove cleanup path).sandbox = (s.sandbox.removeSandboxStorage cleanup path).sandbox := by
  unfold remove
  dsimp only
  split <;> rfl

theorem remove_cleanups (s : State) (path : String) (cleanup : StorageDevice → Except String Unit) :
    (s.remove cleanup path).cleanups = s.cleanups ∨
      (s.sandbox.removeSandboxStorage cleanup path).cleaned.isSome ∧
        (s.remove cleanup path).cleanups = (path, s.adds path - (s.removes path + 1)) :: s.cleanups := by
  unfold remove
  dsimp only
  split
  · exact .inl rfl
  · rename_i hcl
    refine .inr ⟨by rw [hcl]; rfl, ?_⟩
    show (path, s.adds path - Function.update s.removes path (s.removes path + 1) path) :: s.cleanups = _
    rw [Function.update_self]

theorem Counted.remove (hc : s.Counted) (hpos : 0 < s.sandbox.refCount path) : (s.remove cleanup path).Counted := by
  obtain ⟨hwf, hcount, hlast⟩ := Sandbox.removeSandboxStorage_spec cleanup hc.wf hpos
  refine ⟨?_, fun p => ?_, fun e he => ?_⟩
  · rw [remove_sandbox]
    exact hwf
  · rw [remove_adds, remove_removes, remove_sandbox, hcount, hc.counted]
    by_cases hp : p = path
    · rw [if_pos hp, hp]
      omega
    · rw [if_neg hp]
      rfl
  · rcases remove_cleanups s path cleanup with h | ⟨hcl, h⟩
    · rw [h] at he
      exact hc.clean e he
    · rw [h] at he
      rcases List.mem_cons.mp he with he | he
      · rw [he, hc.counted, hlast hcl]
        exact Nat.sub_self _
      · exact hc.clean e he

/-- The users of a path are the finished calls that use it and the calls that hold it, `held` of
them. -/
structure Balanced (s : State) (held : String → Nat) : Prop extends s.Counted where
  owned : ∀ p, s.adds p = s.removes p + s.users p + held p

variable {held : String → Nat}

section Balanced

variable (hb : s.Balanced held)
include hb

theorem Balanced.refCount_eq (p : String) : s.sandbox.refCount p = s.users p + held p := by
  have hc := hb.counted p
  have ho := hb.owned p
  omega

theorem Balanced.add (hmax : s.sandbox.refCount path < 2 ^ 32 - 1) :
    (s.add path).2.Balanced fun p => held p + if p = path then 1 else 0 := by
  obtain ⟨hwf, hcount⟩ := Sandbox.addSandboxStorage_spec hb.wf hmax
  have hadds : ∀ p, (s.add path).2.adds p = s.adds p + if p = path then 1 else 0 := by
    intro p
    show Function.update s.adds path (s.adds path + 1) p = _
    rw [Function.update_apply]
    by_cases hp : p = path
    · rw [if_pos hp, if_pos hp, hp]
    · rw [if_neg hp, if_neg hp]
      rfl
  refine ⟨⟨hwf, fun p => ?_, hb.clean⟩, fun p => ?_⟩
  · show (s.add path).2.adds p = s.removes p + (s.sandbox.addSandboxStorage path).2.refCount p
    rw [hadds, hcount, hb.counted]
    omega
  · show (s.add path).2.adds p = s.removes p + s.users p + (held p + if p = path then 1 else 0)
    rw [hadds, hb.owned]
    omega

theorem Balanced.settle (hheld : 0 < held path) :
    (s.settle path).Balanced fun p => held p - if p = path then 1 else 0 := by
  refine ⟨⟨hb.wf, hb.counted, hb.clean⟩, fun p => ?_⟩
  show s.adds p = s.removes p + Function.update s.users path (s.users path + 1) p + _
  rw [Function.update_apply, hb.owned]
  by_cases hp : p = path
  · rw [if_pos hp, if_pos hp, hp]
    omega
  · rw [if_neg hp, if_neg hp]
    rfl

theorem Balanced.remove (hheld : 0 < held path) :
    (s.remove cleanup path).Balanced fun p => held p - if p = path then 1 else 0 := by
  have hpos : 0 < s.sandbox.refCount path := by
    rw [hb.refCount_eq]
    omega
  refine ⟨hb.toCounted.remove hpos, fun p => ?_⟩
  rw [remove_adds, remove_removes, remove_users, hb.owned]
  by_cases hp : p = path
  · rw [if_pos hp, hp]
    omega
  · rw [if_neg hp]
    rfl

theorem Balanced.release (husers : 0 < s.users path) :
    (s.release cleanup path).Balanced held := by
  have hpos : 0 < s.sandbox.refCount path := by
    rw [hb.refCount_eq]
    omega
  have hc : ({ s with users := Function.update s.users path (s.users path - 1) } : State).Counted :=
    ⟨hb.wf, hb.counted, hb.clean⟩
  refine ⟨hc.remove hpos, fun p => ?_⟩
  rw [State.release, remove_adds, remove_removes, remove_users]
  show s.adds p = s.removes p + (if p = path then 1 else 0) + Function.update s.users path
    (s.users path - 1) p + held p
  rw [Function.update_apply, hb.owned]
  by_cases hp : p = path
  · rw [if_pos hp, if_pos hp, hp]
    omega
  · rw [if_neg hp, if_neg hp]
    rfl

end Balanced

end State

/-! ## One step -/

/-- The path that a call holds: it has added it and is not through with it. -/
def Call.held (c : Call) : Option String :=
  match c.pc with
  | .added storage _ => some storage.mountPoint
  | .creating path => some path
  | .created path _ => some path
  | .createFailed path _ => some path
  | .updateFailed path _ => some path
  | .done held _ => held
  | .next => none
  | .discarding _ _ => none

def Call.holds (p : String) (c : Call) : Bool := c.held = some p

/-- The update of the call has worked, or has not been tried. -/
def Call.Installed (c : Call) : Prop :=
  (∀ path device, c.pc ≠ .updateFailed path device) ∧ ∀ path device, c.pc ≠ .discarding path device

/-- The path that a call adds in its next step. -/
def Call.adding (c : Call) : Option String :=
  match c.pc with
  | .next => c.rest.head?.map Storage.mountPoint
  | _ => none

/-- The path for which a call installs a device in its next step. -/
def Call.installing (c : Call) : Option String :=
  match c.pc with
  | .created path _ => some path
  | _ => none

/-- What a call may meet at its next step: a count that can still grow when it adds a path, and
nobody but itself when it installs a device. -/
def CallSafe (s : State) (c : Call) : Prop :=
  (∀ p ∈ c.adding, s.sandbox.refCount p < 2 ^ 32 - 1) ∧ ∀ p ∈ c.installing, s.sandbox.refCount p = 1

instance (s : State) (c : Call) : Decidable (CallSafe s c) := inferInstanceAs (Decidable (_ ∧ _))

def Safe (s : State) : Action → Prop
  | .step i _ => ∀ c ∈ s.calls[i]?, CallSafe s c
  | _ => True

instance (s : State) (a : Action) : Decidable (Safe s a) :=
  match a with
  | .step i _ => inferInstanceAs (Decidable (∀ c ∈ s.calls[i]?, CallSafe s c))
  | .call _ => isTrue trivial
  | .release _ => isTrue trivial

section Step

variable {handler : String → Bool} {cleanup : StorageDevice → Except String Unit} {s s' : State} {c c' : Call}
  {created : Except String StorageDevice} {held : String → Nat}

/-- The account after the step of a call that stood at `c` and stands at `c'`. -/
structure Advanced (s s' : State) (c c' : Call) (held : String → Nat) : Prop where
  calls : s'.calls = s.calls
  installed : c'.Installed
  balanced : ∃ held', s'.Balanced held' ∧ ∀ p, held' p + (c.holds p).toNat = held p + (c'.holds p).toNat

theorem Advanced.same (hb : s.Balanced held) (hin : c'.Installed) (hheld : c'.held = c.held) :
    Advanced s s c c' held where
  calls := rfl
  installed := hin
  balanced := ⟨held, hb, fun p => by rw [Call.holds, Call.holds, hheld]⟩

theorem Advanced.taken {path : String} (hb : s'.Balanced fun p => held p + if p = path then 1 else 0)
    (hcalls : s'.calls = s.calls) (hin : c'.Installed) (hc : c.held = none) (hc' : c'.held = some path) :
    Advanced s s' c c' held where
  calls := hcalls
  installed := hin
  balanced := by
    refine ⟨_, hb, fun p => ?_⟩
    rw [Call.holds, Call.holds, hc, hc']
    by_cases hp : p = path
    · simp [hp]
    · simp [hp, Ne.symm hp]

theorem Advanced.given {path : String} (hb : s'.Balanced fun p => held p - if p = path then 1 else 0)
    (hpos : 0 < held path) (hcalls : s'.calls = s.calls) (hin : c'.Installed) (hc : c.held = some path)
    (hc' : c'.held = none) : Advanced s s' c c' held where
  calls := hcalls
  installed := hin
  balanced := by
    refine ⟨_, hb, fun p => ?_⟩
    rw [Call.holds, Call.holds, hc, hc']
    by_cases hp : p = path
    · subst hp
      simp
      omega
    · simp [hp, Ne.symm hp]

theorem advance_spec (hb : s.Balanced held) (hin : c.Installed) (hheld : ∀ p, c.held = some p → 0 < held p)
    (hsafe : CallSafe s c) (h : advance handler cleanup s c created = some (s', c')) : Advanced s s' c c' held := by
  unfold advance at h
  cases hpc : c.pc with
  | next =>
    have hnone : c.held = none := by rw [Call.held, hpc]
    rw [hpc] at h
    cases hrest : c.rest with
    | nil =>
      rw [hrest] at h
      cases h
      exact .same hb ⟨nofun, nofun⟩ hnone.symm
    | cons storage rest =>
      have hadding : c.adding = some storage.mountPoint := by rw [Call.adding, hpc, hrest]; rfl
      rw [hrest] at h
      cases h
      exact .taken (hb.add (hsafe.1 _ hadding)) rfl ⟨nofun, nofun⟩ hnone rfl
  | added storage state =>
    have hsome : c.held = some storage.mountPoint := by rw [Call.held, hpc]
    rw [hpc] at h
    dsimp only at h
    split at h
    · cases h
      exact .given (hb.settle (hheld _ hsome)) (hheld _ hsome) rfl ⟨nofun, nofun⟩ hsome rfl
    · split at h
      all_goals
        cases h
        exact .same hb ⟨nofun, nofun⟩ hsome.symm
  | creating path =>
    have hsome : c.held = some path := by rw [Call.held, hpc]
    rw [hpc] at h
    dsimp only at h
    split at h
    all_goals
      cases h
      exact .same hb ⟨nofun, nofun⟩ hsome.symm
  | created path device =>
    have hsome : c.held = some path := by rw [Call.held, hpc]
    have hinstalling : c.installing = some path := by rw [Call.installing, hpc]
    rw [hpc] at h
    obtain ⟨old, sb', hup, hwf, hcount⟩ :=
      Sandbox.updateSandboxStorage_spec hb.wf (hsafe.2 _ hinstalling) device
    dsimp only at h
    rw [hup] at h
    cases h
    have hb' : ({ s with sandbox := sb' } : State).Balanced held := by
      refine ⟨⟨hwf, fun p => ?_, hb.clean⟩, hb.owned⟩
      show s.adds p = s.removes p + sb'.refCount p
      rw [hcount]
      exact hb.counted p
    exact .given (hb'.settle (hheld _ hsome)) (hheld _ hsome) rfl ⟨nofun, nofun⟩ hsome rfl
  | createFailed path e =>
    have hsome : c.held = some path := by rw [Call.held, hpc]
    rw [hpc] at h
    cases h
    exact .given (hb.remove (hheld _ hsome)) (hheld _ hsome) State.remove_calls ⟨nofun, nofun⟩ hsome rfl
  | updateFailed path device => exact absurd hpc (hin.1 path device)
  | discarding path device => exact absurd hpc (hin.2 path device)
  | done held result =>
    rw [hpc] at h
    cases h

end Step

/-! ## Runs -/

section Run

variable (handler : String → Bool) (cleanup : StorageDevice → Except String Unit)

/-- A step that meets the condition. -/
def SafeStep (s : State) (a : Action) (s' : State) : Prop := s.step handler cleanup a = some s' ∧ Safe s a

structure Inv (s : State) : Prop where
  balanced : s.Balanced fun p => s.calls.countP (Call.holds p)
  installed : ∀ c ∈ s.calls, c.Installed

theorem inv_new : Inv State.new where
  balanced := ⟨⟨⟨nofun, nofun, nofun⟩, fun _ => rfl, nofun⟩, fun _ => rfl⟩
  installed := nofun

variable {handler cleanup}

theorem inv_step (s : State) (a : Action) (s' : State) (hI : Inv s) (hstep : SafeStep handler cleanup s a s') :
    Inv s' := by
  obtain ⟨h, hsafe⟩ := hstep
  cases a with
  | call storages =>
    cases h
    refine ⟨⟨⟨hI.balanced.wf, hI.balanced.counted, hI.balanced.clean⟩, fun p => ?_⟩, fun c hc => ?_⟩
    · rw [List.countP_append]
      exact hI.balanced.owned p
    · rcases List.mem_append.mp hc with hc | hc
      · exact hI.installed c hc
      · cases List.mem_singleton.mp hc
        exact ⟨nofun, nofun⟩
  | step i created =>
    simp only [State.step] at h
    cases hc : s.calls[i]? with
    | none =>
      rw [hc] at h
      cases h
    | some c =>
      rw [hc] at h
      obtain ⟨⟨s1, c1⟩, hadv, hout⟩ := Option.map_eq_some_iff.mp h
      cases hout
      have hmem := List.mem_of_getElem? hc
      have hheld : ∀ p, c.held = some p → 0 < s.calls.countP (Call.holds p) := fun p hp =>
        List.countP_pos_iff.mpr ⟨c, hmem, decide_eq_true hp⟩
      have hspec := advance_spec hI.balanced (hI.installed c hmem) hheld (hsafe c hc) hadv
      obtain ⟨held', hb, hcount⟩ := hspec.balanced
      have heq : held' = fun p => (s1.calls.set i c1).countP (Call.holds p) := by
        funext p
        have hset := countP_set_add (b := c1) (Call.holds p) hc
        rw [hspec.calls]
        have := hcount p
        omega
      refine ⟨heq ▸ ⟨⟨hb.wf, hb.counted, hb.clean⟩, hb.owned⟩, fun d hd => ?_⟩
      rcases List.mem_or_eq_of_mem_set hd with hd | hd
      · rw [hspec.calls] at hd
        exact hI.installed d hd
      · rw [hd]
        exact hspec.installed
  | release path =>
    simp only [State.step] at h
    split at h
    · cases h
      have hcalls : (s.release cleanup path).calls = s.calls := State.remove_calls
      refine ⟨?_, ?_⟩
      · rw [hcalls]
        exact hI.balanced.release ‹_›
      · rw [hcalls]
        exact hI.installed
    · cases h

theorem refCount_correct {as : List Action} {s : State} (h : Run (SafeStep handler cleanup) State.new as s) :
    (∀ p, s.adds p = s.removes p + s.sandbox.refCount p) ∧ ∀ e ∈ s.cleanups, e.2 = 0 := by
  have hI := Run.invariant inv_step h inv_new
  exact ⟨hI.balanced.counted, hI.balanced.clean⟩

end Run

/-! ## Two containers with one storage -/

def shared : List Storage := [{ mountPoint := "/run/shared", driver := "blk" }]

def mounted : Except String StorageDevice := .ok { path := some "/run/shared" }

/-- The first call is through before the second one begins; both containers release the storage. -/
def oneAfterTheOther : List Action :=
  [.call shared, .step 0 mounted, .step 0 mounted, .step 0 mounted, .step 0 mounted,
    .call shared, .step 1 mounted, .step 1 mounted,
    .release "/run/shared", .release "/run/shared"]

/-- Every driver has a handler, and every cleanup works. -/
def State.next (s : State) (a : Action) : Option State := s.step (fun _ => true) (fun _ => .ok ()) a

theorem refCount_correct_oneAfterTheOther :
    ∃ s, Run (SafeStep (fun _ => true) fun _ => .ok ()) State.new oneAfterTheOther s ∧
      (s.adds "/run/shared" = 2 ∧ s.cleanups.length = 1) ∧
      (∀ p, s.adds p = s.removes p + s.sandbox.refCount p) ∧ ∀ e ∈ s.cleanups, e.2 = 0 := by
  have hsafe : ∀ s a s', (if Safe s a then s.next a else none) = some s' →
      SafeStep (fun _ => true) (fun _ => .ok ()) s a s' := by
    intro s a s' h
    split at h
    · exact ⟨h, ‹_›⟩
    · cases h
  obtain ⟨s, hs, hsize⟩ := Run.exists_of_foldlM _ State.new oneAfterTheOther
    (fun s => s.adds "/run/shared" = 2 ∧ s.cleanups.length = 1) hsafe (by decide)
  exact ⟨s, hs, of_decide_eq_true hsize, refCount_correct hs⟩

/-- The second call adds the storage while the first one is creating the device. -/
def inTheWindow : List Action :=
  [.call shared, .step 0 mounted, .step 0 mounted,
    .call shared, .step 1 mounted, .step 1 mounted,
    .step 0 mounted, .step 0 mounted]

/-- Two users and a count of 1; when one of them releases the storage, it is cleaned up under the
other. -/
theorem late_user_forgotten :
    (∃ s, Run (fun s a s' => s.next a = some s') State.new inTheWindow s ∧
      s.adds "/run/shared" = 2 ∧ s.removes "/run/shared" = 0 ∧ s.sandbox.refCount "/run/shared" = 1) ∧
    ∃ s, Run (fun s a s' => s.next a = some s') State.new (inTheWindow ++ [.release "/run/shared"]) s ∧
      s.cleanups = [("/run/shared", 1)] := by
  constructor
  · obtain ⟨s, hs, hcounts⟩ := Run.exists_of_foldlM State.next State.new inTheWindow
      (fun s => s.adds "/run/shared" = 2 ∧ s.removes "/run/shared" = 0 ∧ s.sandbox.refCount "/run/shared" = 1)
      (fun _ _ _ h => h) (by decide)
    exact ⟨s, hs, of_decide_eq_true hcounts⟩
  · obtain ⟨s, hs, hclean⟩ := Run.exists_of_foldlM State.next State.new (inTheWindow ++ [.release "/run/shared"])
      (fun s => s.cleanups = [("/run/shared", 1)]) (fun _ _ _ h => h) (by decide)
    exact ⟨s, hs, of_decide_eq_true hclean⟩

end Kata.Agent
