import RuleLisp.Store

/-! # What a store holds

Something may be known of all values in the scopes of a store, and of all functions of the host in
it. A write keeps what is known if it is known of what is written.
-/

namespace RuleLisp.Store

/-- All values are of one kind, and all functions of the host of another. -/
structure Holds (kind : Value → Prop) (hostKind : HostFunction → Prop) (store : Store) : Prop where
  values : ∀ number, ∀ binding ∈ store.scope number, kind binding.2
  hosts : ∀ run ∈ store.hosts, hostKind run

variable {kind wider : Value → Prop} {hostKind hostWider : HostFunction → Prop}
  {store after : Store}

theorem holds_initial : initial.Holds kind hostKind where
  values number binding member := by
    rcases number with _ | number <;> cases member
  hosts run member := by
    simp [initial] at member

namespace Holds

variable (holds : store.Holds kind hostKind)

include holds

theorem mono (widens : ∀ value, kind value → wider value)
    (hostWidens : ∀ run, hostKind run → hostWider run) : store.Holds wider hostWider where
  values number binding member := widens binding.2 (holds.values number binding member)
  hosts run member := hostWidens run (holds.hosts run member)

theorem lookup {env : Environment} {name : String} {value : Value}
    (found : store.lookup? env name = some value) : kind value := by
  rcases List.exists_of_findSome?_eq_some found with ⟨number, _, bound⟩
  exact holds.values number _ (Table.mem_of_get? bound)

/-! ## Writes -/

theorem of_scopes_eq (scopes : after.scopes = store.scopes)
    (hosts : ∀ run ∈ after.hosts, hostKind run) : after.Holds kind hostKind where
  values number binding member := by
    rw [scope_eq, scopes, ← scope_eq] at member
    exact holds.values number binding member
  hosts := hosts

theorem define (env : Environment) (name : String) {value : Value} (fits : kind value) :
    (store.define env name value).Holds kind hostKind where
  values number := forall_mem_scope_define (holds.values number) env name fits
  hosts := holds.hosts

theorem pushHost {run : HostFunction} (fits : hostKind run) :
    Holds kind hostKind { store with hosts := store.hosts.push run } where
  values := holds.values
  hosts other member := by
    rcases Array.mem_push.mp member with old | rfl
    · exact holds.hosts other old
    · exact fits

theorem pushScope {bindings : Table Value} (fits : ∀ binding ∈ bindings, kind binding.2) :
    Holds kind hostKind { store with scopes := store.scopes.push bindings } where
  values number binding member := by
    rw [scope_eq, Array.getElem?_push] at member
    split at member
    · exact fits binding member
    · rw [← scope_eq] at member
      exact holds.values number binding member
  hosts := holds.hosts

end Holds

end RuleLisp.Store
